import MOKernel.NetStack

/-!
# Transmit descriptors

`net_send` down to the registers: it copies the frame to the buffer of the current
descriptor, starts the descriptor by writing its size to TSD, and reads TSD at most 100000
times for TOK.  What the card answers to these reads is arbitrary.

A descriptor is pending from the write of its TSD until a read of it shows TOK.  The wait
ends the same way on TOK and on a timeout, so `net_send` returns 0 for a frame still
pending, and once the four descriptors have gone round it stores over it.  Both happen
in no run exactly when every wait sees TOK (`txSound_iff`).
-/

namespace MOKernel

/-- `RTL_TSD_TOK`. -/
def rtlTsdTok : UInt32 := (1 : UInt32) <<< 15

/-- The bound of the wait. -/
abbrev txTimeout : Nat := 100000

/-- What `net_send` does to the card and to the memory the card reads. -/
inductive TxIo
  /-- The frame is stored to the front of `tx_buf[slot]`. -/
  | copy (slot : Fin rtlTxDescNum) (frame : List UInt8)
  | writeTsd (slot : Fin rtlTxDescNum) (w : UInt32)
  /-- A read of TSD and its answer. -/
  | readTsd (slot : Fin rtlTxDescNum) (w : UInt32)

structure TxDriver where
  iobase : UInt16
  txCur : Fin rtlTxDescNum
  txBuf : Fin rtlTxDescNum → Vector UInt8 rtlTxBufSize

/-- A call of `net_send`: its frame, and the answers to its reads of TSD in order. -/
structure TxCall where
  frame : List UInt8
  tsd : Nat → UInt32

structure TxResult where
  ret : Int
  io : List TxIo
  driver : TxDriver

/-- `while (timeout--) { tsd = rtl_inl(..); if (tsd & RTL_TSD_TOK) break; }`: the answers read,
from the `n`-th on. -/
def waitTok (tsd : Nat → UInt32) (n : Nat) : (timeout : Nat) → List UInt32
  | 0 => []
  | timeout + 1 =>
    if tsd n &&& rtlTsdTok ≠ 0 then [tsd n] else tsd n :: waitTok tsd (n + 1) timeout

/-- The argument checks of `net_send`. -/
def TxDriver.Accepts (d : TxDriver) (frame : List UInt8) : Prop :=
  ¬ (d.iobase = 0 ∨ frame.length > rtlTxBufSize)

instance (d : TxDriver) (frame : List UInt8) : Decidable (d.Accepts frame) :=
  inferInstanceAs (Decidable (¬ _))

/-- `(tx_cur + 1) % RTL_TX_DESC_NUM`. -/
def TxDriver.nextDesc (d : TxDriver) : Fin rtlTxDescNum :=
  ⟨(d.txCur.val + 1) % rtlTxDescNum, Nat.mod_lt _ (by decide)⟩

theorem TxDriver.nextDesc_eq (d : TxDriver) : d.nextDesc = d.txCur + 1 :=
  Fin.ext (by simp [nextDesc, Fin.val_add])

/-- `net_send` with its accesses of the card. -/
def netSendIo (d : TxDriver) (call : TxCall) : TxResult :=
  if d.Accepts call.frame then
    { ret := 0
      io := .copy d.txCur call.frame ::
        .writeTsd d.txCur (UInt32.ofNat call.frame.length &&& 0x1FFF) ::
          (waitTok call.tsd 0 txTimeout).map (.readTsd d.txCur)
      driver :=
        { d with
          txCur := d.nextDesc
          txBuf := Function.update d.txBuf d.txCur
            (overwrite (d.txBuf d.txCur) call.frame) } }
  else ⟨-1, [], d⟩

/-- The results of a sequence of calls. -/
def txRun (d : TxDriver) : List TxCall → List TxResult
  | [] => []
  | call :: calls => netSendIo d call :: txRun (netSendIo d call).driver calls

@[simp] theorem netSendIo_iobase (d : TxDriver) (call : TxCall) :
    (netSendIo d call).driver.iobase = d.iobase := by
  rw [netSendIo]
  split <;> rfl

/-- The result and the rotation are those of `netSend`. -/
theorem netSendIo_netSend (st : NetState) (txBuf : Fin rtlTxDescNum → Vector UInt8 rtlTxBufSize)
    (call : TxCall) :
    (netSendIo ⟨st.iobase, st.txCur, txBuf⟩ call).ret = (netSend st call.frame).1 ∧
      (netSendIo ⟨st.iobase, st.txCur, txBuf⟩ call).driver.txCur =
        (netSend st call.frame).2.txCur := by
  rw [netSendIo, netSend]
  split
  · rename_i accepts
    rw [if_neg accepts]
    exact ⟨rfl, TxDriver.nextDesc_eq _⟩
  · rename_i rejects
    rw [if_pos (Decidable.not_not.mp rejects)]
    exact ⟨rfl, rfl⟩

/-- The size written to TSD and the front of the buffer are those of the frame. -/
theorem netSendIo_queues {d : TxDriver} {call : TxCall} (accepts : d.Accepts call.frame) :
    (UInt32.ofNat call.frame.length &&& 0x1FFF).toNat = call.frame.length ∧
      ((netSendIo d call).driver.txBuf d.txCur).toList.take call.frame.length = call.frame := by
  have fits : call.frame.length ≤ rtlTxBufSize := Nat.le_of_not_lt (not_or.mp accepts).2
  constructor
  · have mask : (0x1FFF : UInt32).toNat = 2 ^ 13 - 1 := rfl
    rw [UInt32.toNat_and, mask, Nat.and_two_pow_sub_one_eq_mod, UInt32.toNat_ofNat']
    simp only [rtlTxBufSize] at fits
    omega
  · rw [netSendIo, if_pos accepts]
    simp only [Function.update_self]
    rw [toList_overwrite _ fits, List.take_left']
    rfl

/-! ## Pending descriptors -/

/-- The descriptors that are pending after an access. -/
def TxIo.pending (pending : Set (Fin rtlTxDescNum)) : TxIo → Set (Fin rtlTxDescNum)
  | .copy _ _ => pending
  | .writeTsd slot _ => insert slot pending
  | .readTsd slot w => {s ∈ pending | ¬ (s = slot ∧ w &&& rtlTsdTok ≠ 0)}

def pendingAfter (pending : Set (Fin rtlTxDescNum)) (io : List TxIo) : Set (Fin rtlTxDescNum) :=
  io.foldl TxIo.pending pending

/-- No access stores over the buffer of a pending descriptor. -/
def CopiesFree (pending : Set (Fin rtlTxDescNum)) : List TxIo → Prop
  | [] => True
  | .copy slot _ :: io => slot ∉ pending ∧ CopiesFree pending io
  | access :: io => CopiesFree (access.pending pending) io

/-- A result of `net_send` that keeps its promise: 0 for a frame whose descriptor it has
started and seen complete, and an error otherwise. -/
def TxResult.Honest (r : TxResult) : Prop :=
  (r.ret = 0 ∧ ∃ slot w, .writeTsd slot w ∈ r.io ∧ slot ∉ pendingAfter ∅ r.io) ∨ r.ret = -1

/-- Transmit completion over a run. -/
structure TxSound (log : List TxResult) : Prop where
  honest : ∀ r ∈ log, r.Honest
  copies : CopiesFree ∅ (log.flatMap TxResult.io)

/-- One of the answers `net_send` waits for shows TOK. -/
def TxCall.SeesTok (call : TxCall) : Prop := ∃ n < txTimeout, call.tsd n &&& rtlTsdTok ≠ 0

variable {pending : Set (Fin rtlTxDescNum)} {d : TxDriver} {call : TxCall}

theorem copiesFree_append {io io' : List TxIo} :
    CopiesFree pending (io ++ io') ↔
      CopiesFree pending io ∧ CopiesFree (pendingAfter pending io) io' := by
  induction io generalizing pending with
  | nil => exact ⟨fun free => ⟨trivial, free⟩, And.right⟩
  | cons access io ih =>
    cases access with
    | copy slot frame => exact (and_congr_right fun _ => ih).trans and_assoc.symm
    | writeTsd slot w => exact ih
    | readTsd slot w => exact ih

theorem copiesFree_reads (slot : Fin rtlTxDescNum) (answers : List UInt32) :
    CopiesFree pending (answers.map (.readTsd slot)) := by
  induction answers generalizing pending with
  | nil => exact trivial
  | cons w answers ih => exact ih

/-- Reads complete the descriptor they are from when one of them shows TOK. -/
theorem mem_pendingAfter_reads {slot s : Fin rtlTxDescNum} {answers : List UInt32} :
    s ∈ pendingAfter pending (answers.map (.readTsd slot)) ↔
      s ∈ pending ∧ ¬ (s = slot ∧ ∃ w ∈ answers, w &&& rtlTsdTok ≠ 0) := by
  induction answers generalizing pending with
  | nil => simp [pendingAfter]
  | cons w answers ih =>
    refine ih.trans ?_
    rw [List.exists_mem_cons_iff, and_or_left, not_or, ← and_assoc]
    rfl

/-- The wait reads TOK exactly when it is among the answers before the timeout. -/
theorem waitTok_sees_iff {tsd : Nat → UInt32} {n timeout : Nat} :
    (∃ w ∈ waitTok tsd n timeout, w &&& rtlTsdTok ≠ 0) ↔
      ∃ i < timeout, tsd (n + i) &&& rtlTsdTok ≠ 0 := by
  induction timeout generalizing n with
  | zero => simp [waitTok]
  | succ timeout ih =>
    rw [waitTok]
    split
    · rename_i seen
      exact iff_of_true ⟨tsd n, List.mem_singleton_self _, seen⟩ ⟨0, Nat.succ_pos _, seen⟩
    · rename_i unseen
      rw [List.exists_mem_cons_iff, or_iff_right unseen, ih]
      constructor
      · rintro ⟨i, lt, seen⟩
        exact ⟨i + 1, Nat.succ_lt_succ lt, by rwa [← Nat.add_assoc, Nat.add_right_comm]⟩
      · rintro ⟨i, lt, seen⟩
        cases i with
        | zero => exact absurd seen unseen
        | succ i => exact ⟨i, Nat.lt_of_succ_lt_succ lt, by rwa [Nat.add_right_comm, Nat.add_assoc]⟩

/-! ## A call -/

/-- What is pending after an accepted call. -/
theorem mem_pendingAfter_accepted (accepts : d.Accepts call.frame) {s : Fin rtlTxDescNum} :
    s ∈ pendingAfter pending (netSendIo d call).io ↔
      (s = d.txCur ∨ s ∈ pending) ∧ ¬ (s = d.txCur ∧ call.SeesTok) := by
  have seen : (∃ w ∈ waitTok call.tsd 0 txTimeout, w &&& rtlTsdTok ≠ 0) ↔ call.SeesTok := by
    rw [waitTok_sees_iff]
    simp only [Nat.zero_add, TxCall.SeesTok]
  rw [netSendIo, if_pos accepts, ← seen]
  exact mem_pendingAfter_reads

/-- A wait that sees TOK leaves nothing pending behind. -/
theorem pendingAfter_eq_empty (sees : d.Accepts call.frame → call.SeesTok) :
    pendingAfter ∅ (netSendIo d call).io = ∅ := by
  by_cases accepts : d.Accepts call.frame
  · refine Set.eq_empty_of_forall_notMem fun s member => ?_
    obtain ⟨queued, incomplete⟩ := (mem_pendingAfter_accepted accepts).mp member
    exact incomplete ⟨queued.resolve_right (Set.notMem_empty s), sees accepts⟩
  · rw [netSendIo, if_neg accepts]
    rfl

/-- A call stores over its own descriptor only. -/
theorem copiesFree_netSendIo (free : d.txCur ∉ pending) :
    CopiesFree pending (netSendIo d call).io := by
  by_cases accepts : d.Accepts call.frame
  · rw [netSendIo, if_pos accepts]
    exact ⟨free, copiesFree_reads _ _⟩
  · rw [netSendIo, if_neg accepts]
    exact trivial

/-- A call is honest exactly when the wait of an accepted frame sees TOK. -/
theorem honest_netSendIo_iff :
    (netSendIo d call).Honest ↔ (d.Accepts call.frame → call.SeesTok) := by
  constructor
  · intro honest accepts
    have ret : (netSendIo d call).ret = 0 := by rw [netSendIo, if_pos accepts]
    rcases honest with ⟨-, slot, w, started, complete⟩ | failed
    · rw [mem_pendingAfter_accepted accepts] at complete
      have own : slot = d.txCur := by
        rw [netSendIo, if_pos accepts] at started
        simp only [List.mem_cons, reduceCtorEq, List.mem_map, and_false, exists_false, or_false,
          false_or, TxIo.writeTsd.injEq] at started
        exact started.1
      by_contra unseen
      exact complete ⟨.inl own, fun both => unseen both.2⟩
    · rw [ret] at failed
      exact absurd failed (by decide)
  · intro sees
    by_cases accepts : d.Accepts call.frame
    · have started : .writeTsd d.txCur (UInt32.ofNat call.frame.length &&& 0x1FFF) ∈
          (netSendIo d call).io := by
        rw [netSendIo, if_pos accepts]
        exact List.mem_cons_of_mem _ List.mem_cons_self
      refine .inl ⟨by rw [netSendIo, if_pos accepts], d.txCur, _, started, ?_⟩
      rw [pendingAfter_eq_empty sees]
      exact Set.notMem_empty _
    · right
      rw [netSendIo, if_neg accepts]

/-! ## Runs -/

/-- Every wait of the run sees TOK. -/
def WaitsSeeTok (d : TxDriver) (calls : List TxCall) : Prop :=
  ∀ call ∈ calls, d.Accepts call.frame → call.SeesTok

theorem accepts_netSendIo (d : TxDriver) (call : TxCall) (frame : List UInt8) :
    (netSendIo d call).driver.Accepts frame ↔ d.Accepts frame := by
  rw [TxDriver.Accepts, netSendIo_iobase, TxDriver.Accepts]

theorem waitsSeeTok_cons {calls : List TxCall} :
    WaitsSeeTok d (call :: calls) ↔
      (d.Accepts call.frame → call.SeesTok) ∧ WaitsSeeTok (netSendIo d call).driver calls := by
  simp only [WaitsSeeTok, List.forall_mem_cons, accepts_netSendIo]

theorem honest_txRun_iff (calls : List TxCall) :
    (∀ r ∈ txRun d calls, r.Honest) ↔ WaitsSeeTok d calls := by
  induction calls generalizing d with
  | nil => simp [txRun, WaitsSeeTok]
  | cons call calls ih =>
    rw [txRun, List.forall_mem_cons, ih, honest_netSendIo_iff, waitsSeeTok_cons]

theorem copiesFree_txRun {calls : List TxCall} (sees : WaitsSeeTok d calls) :
    CopiesFree ∅ ((txRun d calls).flatMap TxResult.io) := by
  induction calls generalizing d with
  | nil => exact trivial
  | cons call calls ih =>
    obtain ⟨now, later⟩ := waitsSeeTok_cons.mp sees
    rw [txRun, List.flatMap_cons, copiesFree_append, pendingAfter_eq_empty now]
    exact ⟨copiesFree_netSendIo (Set.notMem_empty _), ih later⟩

/-- **Transmit completion.**  In a run of `net_send` every 0 is returned for a frame seen
complete and no pending buffer is overwritten, exactly when each accepted call reads TOK
before its timeout. -/
theorem txSound_iff (d : TxDriver) (calls : List TxCall) :
    TxSound (txRun d calls) ↔
      ∀ call ∈ calls, d.Accepts call.frame → ∃ n < txTimeout, call.tsd n &&& rtlTsdTok ≠ 0 := by
  refine ⟨fun sound => (honest_txRun_iff calls).mp sound.honest, fun sees => ?_⟩
  exact ⟨(honest_txRun_iff calls).mpr sees, copiesFree_txRun sees⟩

/-! ### The rotation -/

theorem netSendIo_txCur (accepts : d.Accepts call.frame) :
    (netSendIo d call).driver.txCur = d.txCur + 1 := by
  rw [netSendIo, if_pos accepts]
  exact d.nextDesc_eq

/-- A pending descriptor other than the current one stays pending. -/
theorem mem_pendingAfter_of_ne {s : Fin rtlTxDescNum} (member : s ∈ pending)
    (other : s ≠ d.txCur) : s ∈ pendingAfter pending (netSendIo d call).io := by
  by_cases accepts : d.Accepts call.frame
  · exact (mem_pendingAfter_accepted accepts).mpr ⟨.inr member, fun both => other both.1⟩
  · rwa [netSendIo, if_neg accepts]

/-- The rotation comes back to a pending descriptor and stores over its buffer. -/
theorem not_copiesFree_of_pending {slot : Fin rtlTxDescNum} {calls : List TxCall} {k : Nat}
    (member : slot ∈ pending) (accepts : ∀ c ∈ calls, d.Accepts c.frame)
    (turn : slot.val = (d.txCur.val + k) % rtlTxDescNum) (long : k < calls.length) :
    ¬ CopiesFree pending ((txRun d calls).flatMap TxResult.io) := by
  induction calls generalizing d pending k with
  | nil => exact absurd long (Nat.not_lt_zero k)
  | cons call calls ih =>
    rw [txRun, List.flatMap_cons, copiesFree_append]
    rintro ⟨now, later⟩
    obtain ⟨accept, rest⟩ := List.forall_mem_cons.mp accepts
    rcases eq_or_ne slot d.txCur with here | elsewhere
    · rw [netSendIo, if_pos accept] at now
      exact now.1 (here ▸ member)
    · cases k with
      | zero =>
        refine elsewhere (Fin.ext ?_)
        rw [turn, Nat.add_zero, Nat.mod_eq_of_lt d.txCur.isLt]
      | succ k =>
        have turn' : slot.val = ((netSendIo d call).driver.txCur.val + k) % rtlTxDescNum := by
          rw [netSendIo_txCur accept, turn, Fin.val_add, Nat.mod_add_mod]
          exact congrArg (· % rtlTxDescNum) (by rw [Fin.val_one]; omega)
        exact ih (mem_pendingAfter_of_ne member elsewhere)
          (fun c inRest => (accepts_netSendIo d call _).mpr (rest c inRest)) turn'
          (Nat.lt_of_succ_lt_succ long) later

/-- A frame not seen complete is overwritten by the fourth frame after it. -/
theorem not_copiesFree_of_timeout {calls : List TxCall}
    (accepts : ∀ c ∈ call :: calls, d.Accepts c.frame) (unseen : ¬ call.SeesTok)
    (long : 4 ≤ calls.length) :
    ¬ CopiesFree ∅ ((txRun d (call :: calls)).flatMap TxResult.io) := by
  obtain ⟨accept, rest⟩ := List.forall_mem_cons.mp accepts
  rw [txRun, List.flatMap_cons, copiesFree_append]
  rintro ⟨-, later⟩
  have member : d.txCur ∈ pendingAfter ∅ (netSendIo d call).io :=
    (mem_pendingAfter_accepted accept).mpr ⟨.inl rfl, fun both => unseen both.2⟩
  refine not_copiesFree_of_pending (k := 3) member
    (fun c inRest => (accepts_netSendIo d call _).mpr (rest c inRest)) ?_ long later
  rw [netSendIo_txCur accept, Fin.val_add, Nat.mod_add_mod, Fin.val_one]
  have lt := d.txCur.isLt
  simp only [rtlTxDescNum] at lt ⊢
  omega

/-- A card that never completes a transmission. -/
def silentCall (frame : List UInt8) : TxCall := ⟨frame, fun _ => 0⟩

/-- A driver after `net_init`. -/
def txInit : TxDriver :=
  let st := netInit broadcastMac 0xC000
  ⟨st.iobase, st.txCur, fun _ => Vector.replicate rtlTxBufSize 0⟩

/-- Five frames to a silent card: `net_send` returns 0 for each, and the fifth is stored over
the first. -/
theorem net_send_ignores_timeout :
    ¬ TxSound (txRun txInit (List.replicate 5 (silentCall [0xFF]))) ∧
      ¬ (∀ r ∈ txRun txInit (List.replicate 5 (silentCall [0xFF])), r.Honest) ∧
      ¬ CopiesFree ∅
        ((txRun txInit (List.replicate 5 (silentCall [0xFF]))).flatMap TxResult.io) := by
  have unseen : ¬ (silentCall [0xFF]).SeesTok := fun ⟨n, _, seen⟩ => seen (by simp [silentCall])
  have accepts : ∀ c ∈ List.replicate 5 (silentCall [0xFF]), txInit.Accepts c.frame :=
    fun c member => by rw [List.eq_of_mem_replicate member]; decide
  have stored := not_copiesFree_of_timeout accepts unseen (by decide)
  refine ⟨fun sound => stored sound.copies, fun honest => ?_, stored⟩
  exact unseen ((honest_txRun_iff _).mp honest (silentCall [0xFF]) (by simp) (by decide))

end MOKernel
