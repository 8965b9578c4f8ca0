import Mathlib

/-!
# The physical memory manager

`pmm.c`: a watermark that only moves up.
-/

namespace MOKernel

def pageSize : UInt32 := 4096

/-- The statics of `pmm.c`. -/
structure PmmState where
  freeMemStart : UInt32
  systemMaxMem : UInt32

/-- Their initial values. -/
def pmmBoot : PmmState := ⟨0x00400000, 0⟩

def pmmInit (pmm : PmmState) (memSize : UInt32) : PmmState := { pmm with systemMaxMem := memSize }

/-- The address of a frame, 0 when there is none left. -/
def pmmAllocPage (pmm : PmmState) : UInt32 × PmmState :=
  if pmm.freeMemStart ≥ pmm.systemMaxMem then (0, pmm)
  else (pmm.freeMemStart, { pmm with freeMemStart := pmm.freeMemStart + pageSize })

/-- Freeing does nothing. -/
def pmmFreePage (pmm : PmmState) (_physAddr : UInt32) : PmmState := pmm

end MOKernel
