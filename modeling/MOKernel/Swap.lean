import MOKernel.ByteMemory
import MOKernel.CString

/-!
# The swap store

`swap.c`: 256 slots in a static array.  The pointers passed in are dereferenced
through a `ByteBus`, so a function that takes one can fail at the address that does
not translate.
-/

namespace MOKernel

abbrev swapMaxPages : Nat := 256

abbrev swapPageBytes : Nat := 4096

/-- `swap_page_t`. -/
structure SwapPage where
  virtAddr : UInt32
  data : Vector UInt8 swapPageBytes
  used : Bool

/-- `swap_storage`. -/
abbrev SwapStore := Fin swapMaxPages → SwapPage

/-- The array before the kernel runs. -/
def swapBoot : SwapStore := fun _ => ⟨0, Vector.replicate swapPageBytes 0, false⟩

def swapInit (store : SwapStore) : SwapStore :=
  fun i => { store i with used := false, virtAddr := 0 }

/-- `virt_addr & ~0xFFF`. -/
def pageBase (addr : UInt32) : UInt32 := addr &&& ~~~0xFFF

def swapFindIndex (store : SwapStore) (virtAddr : UInt32) : Option (Fin swapMaxPages) :=
  Fin.find? fun i => (store i).used && (store i).virtAddr == pageBase virtAddr

def swapExists (store : SwapStore) (virtAddr : UInt32) : Bool :=
  (swapFindIndex store virtAddr).isSome

/-- The first slot that is not used. -/
def swapFree (store : SwapStore) : Option (Fin swapMaxPages) :=
  Fin.find? fun i => !(store i).used

section Bus

variable {M : Type} (bus : ByteBus M)

/-- `swap_read`; `physAddr` is used as a pointer. -/
def swapRead (store : SwapStore) (mem : M) (virtAddr physAddr : UInt32) : Except UInt32 M :=
  match swapFindIndex store virtAddr with
  | some i => bus.copyOut mem physAddr (store i).data.toList
  | none => .ok mem

/-- `swap_write`; `physAddr` is used as a pointer. -/
def swapWrite (store : SwapStore) (mem : M) (virtAddr physAddr : UInt32) :
    Except UInt32 SwapStore :=
  match swapFindIndex store virtAddr with
  | some i => do
    let data ← bus.copyIn mem physAddr swapPageBytes
    pure (Function.update store i { store i with data := data })
  | none =>
    match swapFree store with
    | some i => do
      let data ← bus.copyIn mem physAddr swapPageBytes
      pure (Function.update store i ⟨pageBase virtAddr, data, true⟩)
    | none => .ok store

end Bus

/-- The page of `swap_test_store`: the string over what the slot held. -/
def overwriteData (data : Vector UInt8 swapPageBytes) (chars : List UInt8) :
    Vector UInt8 swapPageBytes :=
  Vector.ofFn fun i => chars.getD i data[i]

def swapTestStore (store : SwapStore) (virtAddr : UInt32) (data : CStr) : SwapStore :=
  match swapFree store with
  | some i =>
    Function.update store i ⟨pageBase virtAddr, overwriteData (store i).data data.chars, true⟩
  | none => store

section Found

variable {M : Type} {bus : ByteBus M} {store : SwapStore} {mem : M}
  {virtAddr physAddr addr : UInt32} {i : Fin swapMaxPages}

theorem swapRead_of_found (found : swapFindIndex store virtAddr = some i) :
    swapRead bus store mem virtAddr physAddr =
      bus.copyOut mem physAddr (store i).data.toList := by
  unfold swapRead
  rw [found]

end Found

end MOKernel
