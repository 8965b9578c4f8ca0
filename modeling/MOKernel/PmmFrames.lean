import MOKernel.Pmm

/-!
# The frames `pmm_alloc_page` hands out

From 4 MiB on the watermark moves up one page a call.  Only the start of a page is
compared with the memory size, so the frames are sound for a memory that ends on a page
boundary (or before 4 MiB), and for no other: the last page sticks out of the memory.
-/

namespace MOKernel

inductive PmmOp
  | alloc
  | free (physAddr : UInt32)

/-- What the calls of `pmm_alloc_page` return, in order. -/
def pmmRun (pmm : PmmState) : List PmmOp → List UInt32
  | [] => []
  | .alloc :: ops => (pmmAllocPage pmm).1 :: pmmRun (pmmAllocPage pmm).2 ops
  | .free physAddr :: ops => pmmRun (pmmFreePage pmm physAddr) ops

/-- The number of calls of `pmm_alloc_page`. -/
def pmmAllocs : List PmmOp → Nat
  | [] => 0
  | .alloc :: ops => pmmAllocs ops + 1
  | .free _ :: ops => pmmAllocs ops

/-- Frames are aligned, different, inside the memory, and once there is none there is
none any more. -/
structure FramesSound (memSize : UInt32) (frames : List UInt32) : Prop where
  aligned : ∀ addr ∈ frames, addr ≠ 0 → addr.toNat % 4096 = 0
  distinct : (frames.filter (· ≠ 0)).Nodup
  inside : ∀ addr ∈ frames, addr ≠ 0 →
    0x00400000 ≤ addr.toNat ∧ addr.toNat + 4096 ≤ memSize.toNat
  exhausted : ∀ (i j : Nat) addr, i ≤ j → frames[i]? = some 0 → frames[j]? = some addr → addr = 0

/-! ## The watermark -/

/-- The address of page `k` from 4 MiB on. -/
def frameAddr (k : Nat) : Nat := 0x00400000 + 4096 * k

/-- The watermark stands at page `k`. -/
structure AtFrame (pmm : PmmState) (memSize : UInt32) (k : Nat) : Prop where
  mark : pmm.freeMemStart.toNat = frameAddr k
  size : pmm.systemMaxMem = memSize

theorem atFrame_init (memSize : UInt32) : AtFrame (pmmInit pmmBoot memSize) memSize 0 := ⟨rfl, rfl⟩

section Step

variable {pmm : PmmState} {memSize : UInt32} {k : Nat}

theorem AtFrame.full (at_k : AtFrame pmm memSize k) (above : memSize.toNat ≤ frameAddr k) :
    pmmAllocPage pmm = (0, pmm) := by
  rw [pmmAllocPage, if_pos]
  rw [ge_iff_le, UInt32.le_iff_toNat_le, at_k.mark, at_k.size]
  exact above

/-- A page that starts inside the memory is handed out. -/
theorem AtFrame.alloc (at_k : AtFrame pmm memSize k) (below : frameAddr k < memSize.toNat) :
    pmmAllocPage pmm = (UInt32.ofNat (frameAddr k), (pmmAllocPage pmm).2) ∧
      (pmmAllocPage pmm).2.systemMaxMem = memSize ∧
      (pmmAllocPage pmm).2.freeMemStart.toNat = frameAddr (k + 1) % 2 ^ 32 := by
  have mark : pmm.freeMemStart = UInt32.ofNat (frameAddr k) := by
    rw [← at_k.mark, UInt32.ofNat_toNat]
  have taken : pmmAllocPage pmm =
      (pmm.freeMemStart, { pmm with freeMemStart := pmm.freeMemStart + pageSize }) := by
    rw [pmmAllocPage, if_neg]
    rw [ge_iff_le, UInt32.le_iff_toNat_le, at_k.mark, at_k.size]
    omega
  rw [taken]
  refine ⟨by rw [mark], at_k.size, ?_⟩
  rw [UInt32.toNat_add, at_k.mark, frameAddr, frameAddr, pageSize]
  simp only [UInt32.reduceToNat, Nat.mul_add, Nat.add_assoc]

/-- The watermark moves on unless it wraps. -/
theorem AtFrame.next (at_k : AtFrame pmm memSize k) (below : frameAddr k < memSize.toNat)
    (room : frameAddr (k + 1) < 2 ^ 32) : AtFrame (pmmAllocPage pmm).2 memSize (k + 1) := by
  obtain ⟨-, size, mark⟩ := at_k.alloc below
  exact ⟨by rw [mark, Nat.mod_eq_of_lt room], size⟩

end Step

/-! ## Memory that ends on a page boundary -/

/-- The `k`-th answer of `pmm_alloc_page`. -/
def frameAt (memSize : UInt32) (k : Nat) : UInt32 :=
  if frameAddr k < memSize.toNat then UInt32.ofNat (frameAddr k) else 0

/-- Pages that start inside the memory end inside it. -/
def PageBounded (memSize : UInt32) : Prop :=
  memSize.toNat ≤ 0x00400000 ∨ memSize.toNat % 4096 = 0

instance (memSize : UInt32) : Decidable (PageBounded memSize) := by
  unfold PageBounded
  infer_instance

theorem PageBounded.page_inside {memSize : UInt32} (bounded : PageBounded memSize) {k : Nat}
    (below : frameAddr k < memSize.toNat) : frameAddr k + 4096 ≤ memSize.toNat := by
  unfold PageBounded at bounded
  unfold frameAddr at below ⊢
  omega

/-- From the end of the memory on there is no page. -/
theorem frameAt_eq_zero {memSize : UInt32} {k : Nat} (full : memSize.toNat ≤ frameAddr k)
    (i : Nat) : frameAt memSize (k + i) = 0 := by
  rw [frameAt, if_neg]
  unfold frameAddr at full ⊢
  omega

theorem toNat_frameAt {memSize : UInt32} {k : Nat} (nonzero : frameAt memSize k ≠ 0) :
    frameAddr k < memSize.toNat ∧ (frameAt memSize k).toNat = frameAddr k := by
  have size := memSize.toNat_lt
  rw [frameAt] at nonzero ⊢
  split at nonzero
  · rename_i below
    rw [if_pos below, UInt32.toNat_ofNat', Nat.mod_eq_of_lt (by omega)]
    exact ⟨below, rfl⟩
  · exact absurd rfl nonzero

/-- The answers from page `k` on; a watermark at the end of the memory stays there. -/
theorem pmmRun_eq {memSize : UInt32} (bounded : PageBounded memSize) (ops : List PmmOp)
    {pmm : PmmState} {k : Nat} (at_k : AtFrame pmm memSize k) :
    pmmRun pmm ops = (List.range (pmmAllocs ops)).map fun i => frameAt memSize (k + i) := by
  induction ops generalizing pmm k with
  | nil => rfl
  | cons op ops ih =>
    cases op with
    | free physAddr => exact ih at_k
    | alloc =>
      rw [pmmRun, pmmAllocs, List.range_succ_eq_map, List.map_cons, List.map_map]
      rcases lt_or_ge (frameAddr k) memSize.toNat with below | full
      · have inside := bounded.page_inside below
        have next := at_k.next below (by
          have bound := memSize.toNat_lt
          unfold frameAddr at inside ⊢
          omega)
        rw [(at_k.alloc below).1, ih next]
        congr 1
        · rw [Nat.add_zero, frameAt, if_pos below]
        · refine List.map_congr_left fun i _ => ?_
          rw [Function.comp_apply, Nat.succ_eq_one_add, Nat.add_assoc]
      · rw [at_k.full full, ih at_k, frameAt_eq_zero full 0]
        refine congrArg (0 :: ·) (List.map_congr_left fun i _ => ?_)
        rw [Function.comp_apply, frameAt_eq_zero full, frameAt_eq_zero full]

theorem framesSound_of_bounded {memSize : UInt32} (bounded : PageBounded memSize) (n : Nat) :
    FramesSound memSize ((List.range n).map fun i => frameAt memSize (0 + i)) := by
  have size := memSize.toNat_lt
  constructor
  · intro a member nonzero
    obtain ⟨i, -, rfl⟩ := List.mem_map.mp member
    rw [(toNat_frameAt nonzero).2, frameAddr]
    omega
  · rw [List.filter_map]
    refine List.Nodup.map_on ?_ (List.Nodup.filter _ List.nodup_range)
    intro i left j right same
    have nonzero_i := (List.mem_filter.mp left).2
    have nonzero_j := (List.mem_filter.mp right).2
    simp only [Function.comp_apply, decide_eq_true_eq] at nonzero_i nonzero_j
    have value := congrArg UInt32.toNat same
    rw [(toNat_frameAt nonzero_i).2, (toNat_frameAt nonzero_j).2, frameAddr, frameAddr] at value
    omega
  · intro a member nonzero
    obtain ⟨i, -, rfl⟩ := List.mem_map.mp member
    obtain ⟨below, value⟩ := toNat_frameAt nonzero
    rw [value]
    exact ⟨by rw [frameAddr]; omega, bounded.page_inside below⟩
  · intro i j a le zero answer
    simp only [List.getElem?_map, Option.map_eq_some_iff, List.getElem?_eq_some_iff,
      List.getElem_range] at zero answer
    obtain ⟨_, ⟨_, rfl⟩, zero⟩ := zero
    obtain ⟨_, ⟨_, rfl⟩, rfl⟩ := answer
    by_contra nonzero
    obtain ⟨below, _⟩ := toNat_frameAt nonzero
    have earlier : frameAddr (0 + i) < memSize.toNat := by
      unfold frameAddr at below ⊢
      omega
    rw [frameAt, if_pos earlier] at zero
    have value := congrArg UInt32.toNat zero
    rw [UInt32.toNat_ofNat', Nat.mod_eq_of_lt (by omega), UInt32.toNat_zero, frameAddr] at value
    omega

/-! ## Memory that ends inside a page -/

/-- The allocator gets to every page that starts inside the memory. -/
theorem frame_mem_pmmRun {memSize : UInt32} (n : Nat) {pmm : PmmState} {k : Nat}
    (at_k : AtFrame pmm memSize k) (below : frameAddr (k + n) < memSize.toNat) :
    UInt32.ofNat (frameAddr (k + n)) ∈ pmmRun pmm (List.replicate (n + 1) .alloc) := by
  have size := memSize.toNat_lt
  induction n generalizing pmm k with
  | zero =>
    rw [List.replicate_succ, pmmRun, (at_k.alloc below).1]
    exact List.mem_cons_self
  | succ n ih =>
    have start : frameAddr k < memSize.toNat := by
      unfold frameAddr at below ⊢
      omega
    have room : frameAddr (k + 1) ≤ memSize.toNat := by
      unfold frameAddr at below ⊢
      omega
    have next := at_k.next start (lt_of_le_of_lt room size)
    have regroup : k + (n + 1) = k + 1 + n := by omega
    rw [regroup] at below ⊢
    rw [List.replicate_succ, pmmRun]
    exact List.mem_cons_of_mem _ (ih next below)

/-- **Frame soundness.**  The frames are sound over every sequence of calls exactly for a
memory that ends on a page boundary or before the first frame. -/
theorem frames_sound_iff (memSize : UInt32) :
    (∀ ops, FramesSound memSize (pmmRun (pmmInit pmmBoot memSize) ops)) ↔ PageBounded memSize := by
  have start := atFrame_init memSize
  constructor
  · intro sound
    by_contra unbounded
    have size := memSize.toNat_lt
    obtain ⟨above, ragged⟩ : 0x00400000 < memSize.toNat ∧ memSize.toNat % 4096 ≠ 0 := by
      unfold PageBounded at unbounded
      omega
    -- the page in which the memory ends
    set n := (memSize.toNat - 0x00400000) / 4096 with last
    have below : frameAddr (0 + n) < memSize.toNat := by
      unfold frameAddr
      omega
    have value : (UInt32.ofNat (frameAddr (0 + n))).toNat = frameAddr (0 + n) := by
      rw [UInt32.toNat_ofNat', Nat.mod_eq_of_lt (by omega)]
    have nonzero : UInt32.ofNat (frameAddr (0 + n)) ≠ 0 := by
      intro zero
      rw [zero, UInt32.toNat_zero, frameAddr] at value
      omega
    have inside := ((sound _).inside _ (frame_mem_pmmRun n start below) nonzero).2
    rw [value, frameAddr] at inside
    omega
  · intro bounded ops
    rw [pmmRun_eq bounded ops start]
    exact framesSound_of_bounded bounded (pmmAllocs ops)

/-- A memory that ends one byte after 4 MiB: the first frame does not fit. -/
theorem frames_sound_fails :
    ¬ ∀ memSize ops, FramesSound memSize (pmmRun (pmmInit pmmBoot memSize) ops) := by
  intro sound
  have inside := (sound 0x00400001 [.alloc]).inside 0x00400000 (by decide) (by decide)
  exact absurd inside.2 (by decide)

end MOKernel
