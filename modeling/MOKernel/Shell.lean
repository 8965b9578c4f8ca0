import MOKernel.Fs
import MOKernel.ParseIp

/-!
# The shell

`execute_command` takes a line apart and makes calls; no result of a call decides what
it does next, so a line is the list of the calls it makes (`executeCommand`).  The line
is the memory from `cmd` on.  The end of the list stands for a NUL, and what lies behind
the terminating NUL matters to one command only: `udp` passes on a pointer into the line
together with a length of its own.

`ShellCall.exec` is what a call does to the filesystem, and `ShellCall.printed` what it
hands to `kprint`.
-/

namespace MOKernel

/-- The string at the start of memory. -/
def CStr.at (mem : List UInt8) : CStr := ⟨cstr mem, cstr_nulFree mem⟩

/-- A call `execute_command` makes. -/
inductive ShellCall
  | kprint (str : List UInt8)
  | clearScreen
  | fs (op : FsOp)
  | netCmdIfconfig
  | netPoll
  | netCmdArp
  | netCmdPing (target : IpAddr)
  | udpSend (dst : IpAddr) (srcPort dstPort : UInt16) (data : List UInt8) (dlen : UInt16)

/-! ## Taking a line apart -/

/-- `while (*c == ' ') c++;` -/
def skipSpaces (c : List UInt8) : List UInt8 := c.dropWhile (· = 32)

/-- `*c` -/
def charAt (c : List UInt8) : UInt8 := c.headD 0

/-- `while (*args && *args != ' ' && i < max) buf[i++] = *args++;` the characters stored
and the rest of the line. -/
def cutToken : Nat → List UInt8 → List UInt8 × List UInt8
  | _, [] => ([], [])
  | 0, args => ([], args)
  | max + 1, c :: args =>
    if c ≠ 0 ∧ c ≠ 32 then
      let cut := cutToken max args
      (c :: cut.1, cut.2)
    else ([], c :: args)

/-- `while (*args >= '0' && *args <= '9') { port = port * 10 + (*args - '0'); args++; }` -/
def scanPort (port : UInt32) : List UInt8 → UInt32 × List UInt8
  | [] => (port, [])
  | c :: args =>
    if IsDigit c then scanPort (port * 10 + (c - 48).toUInt32) args else (port, c :: args)

/-! ## The commands -/

def helpText : List String :=
  ["Commands: \n",
    "  help     - Show this message\n",
    "  clear    - Clear screen\n",
    "  echo     - Print text (echo <msg>)\n",
    "  info     - Show system info\n",
    "  pwd      - Show current directory\n",
    "  ls       - List files in current directory\n",
    "  mkdir    - Create a directory (mkdir <name>)\n",
    "  cd       - Change directory (cd <name> | .. | .)\n",
    "  touch    - Create empty file (touch <name>)\n",
    "  write    - Write text to file (write <name> <content>)\n",
    "  cat      - Read file content (cat <name>)\n",
    "  rm       - Delete a file (rm <name>)\n",
    "  rmdir    - Delete an empty directory (rmdir <name>)\n",
    "  ifconfig - Show network interface info\n",
    "  arp      - Show ARP cache\n",
    "  ping     - Ping an IP (ping <ip>)\n",
    "  udp      - Send UDP packet (udp <ip> <port> <msg>)\n"]

/-- The shape of mkdir, cd, rm, rmdir, touch and cat: the rest of the line after the
spaces is the name. -/
def nameCommand (call : CStr → FsOp) (usage : String) (args : List UInt8) : List ShellCall :=
  let name := skipSpaces args
  if charAt name ≠ 0 then [.fs (call (.at name))] else [.kprint (ascii usage)]

/-- `write`; the name goes through `char filename[16]`. -/
def writeCommand (args : List UInt8) : List ShellCall :=
  let cut := cutToken 15 (skipSpaces args)
  let filename := cut.1
  let args := skipSpaces cut.2
  if charAt filename ≠ 0 ∧ charAt args ≠ 0 then [.fs (.writeFile (.at filename) (.at args))]
  else [.kprint (ascii "Usage: write <filename> <content>\n")]

def pingCommand (args : List UInt8) : List ShellCall :=
  -- `target` is not initialised; the 0 is only stored over or dropped
  let parsed := parseIp (skipSpaces args) 0
  if parsed.1 ≠ 0 then [.netCmdPing parsed.2]
  else [.kprint (ascii "Invalid IP. Usage: ping <a.b.c.d>\n")]

/-- `udp`; the address goes through `char ipbuf[20]`, and `i` is its length. -/
def udpCommand (args : List UInt8) : List ShellCall :=
  let cut := cutToken 19 (skipSpaces args)
  let ipbuf := cut.1
  let i := ipbuf.length
  let scanned := scanPort 0 (skipSpaces cut.2)
  let port := scanned.1
  let args := skipSpaces scanned.2
  let parsed := parseIp ipbuf 0
  if parsed.1 ≠ 0 ∧ port > 0 ∧ charAt args ≠ 0 then
    [.udpSend parsed.2 1234 port.toUInt16 args (UInt16.ofNat (20 - i)),
      .kprint (ascii "UDP packet sent\n")]
  else [.kprint (ascii "Usage: udp <ip> <port> <msg>\n")]

/-- `execute_command`: the calls it makes, in order. -/
def executeCommand (cmd : List UInt8) : List ShellCall :=
  let c := skipSpaces cmd
  if charAt c = 0 then []
  else if strcmp c (ascii "help") = 0 then helpText.map fun line => .kprint (ascii line)
  else if strcmp c (ascii "clear") = 0 then [.clearScreen]
  else if strcmp c (ascii "pwd") = 0 then [.fs .pwd]
  else if strcmp c (ascii "ls") = 0 then [.fs .pwd, .fs .listFiles]
  else if strncmp c (ascii "mkdir ") 6 = 0 then
    nameCommand .mkdir "Usage: mkdir <name>\n" (c.drop 6)
  else if strncmp c (ascii "cd ") 3 = 0 then nameCommand .cd "Usage: cd <name>\n" (c.drop 3)
  else if strcmp c (ascii "cd") = 0 then [.fs (.cd (.at (ascii "/")))]
  else if strncmp c (ascii "rm ") 3 = 0 then nameCommand .rm "Usage: rm <name>\n" (c.drop 3)
  else if strncmp c (ascii "rmdir ") 6 = 0 then
    nameCommand .rmdir "Usage: rmdir <name>\n" (c.drop 6)
  else if strncmp c (ascii "touch ") 6 = 0 then
    nameCommand .createFile "Usage: touch <filename>\n" (c.drop 6)
  else if strncmp c (ascii "cat ") 4 = 0 then
    nameCommand .readFile "Usage: cat <filename>\n" (c.drop 4)
  else if strncmp c (ascii "write ") 6 = 0 then writeCommand (c.drop 6)
  else if strncmp c (ascii "echo ") 5 = 0 then [.kprint (cstr (c.drop 5)), .kprint (ascii "\n")]
  else if strcmp c (ascii "info") = 0 then
    [.kprint (ascii "MOKernel - Terminal | Paging | FS | Networking\n")]
  else if strcmp c (ascii "ifconfig") = 0 then [.netCmdIfconfig]
  else if strcmp c (ascii "arp") = 0 then [.netPoll, .netCmdArp]
  else if strncmp c (ascii "ping ") 5 = 0 then pingCommand (c.drop 5)
  else if strncmp c (ascii "udp ") 4 = 0 then udpCommand (c.drop 4)
  else [.kprint (ascii "Unknown param or command: "), .kprint (cstr c), .kprint (ascii "\n")]

/-! ## Running the calls -/

/-- What a call of the API prints; `none` is the out-of-bounds store of `fs_pwd`. -/
def FsOp.out (st : FsState) : FsOp → Option (List UInt8)
  | .mkdir name => some (fsMkdir st name).out
  | .createFile name => some (fsCreateFile st name).out
  | .writeFile name data => some (fsWriteFile st name data).out
  | .readFile name => some (fsReadFile st name).out
  | .cd name => some (fsCd st name).out
  | .rm name => some (fsRm st name).out
  | .rmdir name => some (fsRmdir st name).out
  | .pwd => fsPwd st
  | .listFiles => some (fsListFiles st)

namespace ShellCall

/-- The filesystem after a call; only the calls into `fs.c` touch it. -/
def exec (st : FsState) : ShellCall → FsState
  | .fs op => op.run st
  | _ => st

/-- The text a call prints.  The network commands print what they find in the network
stack, which this module does not hold: they have no text here. -/
def printed (st : FsState) : ShellCall → Option (List UInt8)
  | .kprint str => some str
  | .fs op => op.out st
  | _ => none

end ShellCall

def shellExec (st : FsState) (calls : List ShellCall) : FsState := calls.foldl ShellCall.exec st

/-- The text the calls print one after the other. -/
def shellOut (st : FsState) : List ShellCall → Option (List UInt8)
  | [] => some []
  | call :: calls => (call.printed st).bind fun out =>
    (shellOut (call.exec st) calls).map (out ++ ·)

@[simp] theorem shellExec_fs (st : FsState) (op : FsOp) : shellExec st [.fs op] = op.run st := rfl

@[simp] theorem shellOut_fs (st : FsState) (op : FsOp) : shellOut st [.fs op] = op.out st := by
  cases out : op.out st with
  | none => simp [shellOut, ShellCall.printed, out]
  | some text => simp [shellOut, ShellCall.printed, out]

/-! ## Scanning -/

theorem charAt_append {s : List UInt8} (nonempty : s ≠ []) (t : List UInt8) :
    charAt (s ++ t) = charAt s := by
  cases s with
  | nil => exact absurd rfl nonempty
  | cons c s => rfl

/-- The character at the start of a string is one of its characters. -/
theorem charAt_mem {s : List UInt8} (nonempty : s ≠ []) : charAt s ∈ s := by
  cases s with
  | nil => exact absurd rfl nonempty
  | cons c s => exact List.mem_cons_self

theorem skipSpaces_eq_self {c : List UInt8} (start : charAt c ≠ 32) : skipSpaces c = c := by
  cases c with
  | nil => rfl
  | cons d c => exact List.dropWhile_cons_of_neg (by simpa [charAt] using start)

/-- A typed space is skipped. -/
theorem skipSpaces_space {c : List UInt8} (start : charAt c ≠ 32) : skipSpaces (32 :: c) = c := by
  rw [skipSpaces, List.dropWhile_cons_of_pos (by decide)]
  exact skipSpaces_eq_self start

/-- Neither a space nor a NUL. -/
def Plain (s : List UInt8) : Prop := ∀ c ∈ s, c ≠ 0 ∧ c ≠ 32

theorem Plain.charAt_ne {s : List UInt8} (plain : Plain s) (nonempty : s ≠ []) :
    charAt s ≠ 0 ∧ charAt s ≠ 32 := plain _ (charAt_mem nonempty)

theorem Plain.drop {s : List UInt8} (plain : Plain s) (n : Nat) : Plain (s.drop n) :=
  fun c member => plain c (List.mem_of_mem_drop member)

theorem Plain.take {s : List UInt8} (plain : Plain s) (n : Nat) : Plain (s.take n) :=
  fun c member => plain c (List.mem_of_mem_take member)

theorem Plain.nulFree {s : List UInt8} (plain : Plain s) : (0 : UInt8) ∉ s :=
  fun member => (plain 0 member).1 rfl

theorem IsDigit.plain {c : UInt8} (digit : IsDigit c) : c ≠ 0 ∧ c ≠ 32 := by
  constructor <;> rintro rfl <;> exact absurd digit (by decide)

/-- A word is cut at the limit of the buffer, and the line goes on after the cut. -/
theorem cutToken_append {word rest : List UInt8} (plain : Plain word)
    (stop : charAt rest = 0 ∨ charAt rest = 32) (max : Nat) :
    cutToken max (word ++ rest) = (word.take max, word.drop max ++ rest) := by
  induction word generalizing max with
  | nil =>
    cases rest with
    | nil => simp [cutToken]
    | cons c rest =>
      have ends : ¬(c ≠ 0 ∧ c ≠ 32) := by
        rintro ⟨notNul, notSpace⟩
        exact stop.elim notNul notSpace
      cases max with
      | zero => rfl
      | succ max => rw [List.nil_append, cutToken, if_neg ends]; rfl
  | cons c word ih =>
    cases max with
    | zero => rfl
    | succ max =>
      have tail : Plain word := fun d member => plain d (List.mem_cons_of_mem _ member)
      rw [List.cons_append, cutToken, if_pos (plain c List.mem_cons_self), ih tail]
      rfl

/-- The port accumulates the digits modulo 2^32. -/
theorem scanPort_append {digits rest : List UInt8} (isDigits : IsDigits digits)
    (stop : ¬IsDigit (charAt rest)) (front : List UInt8) :
    scanPort (UInt32.ofNat (decimalValue front)) (digits ++ rest) =
      (UInt32.ofNat (decimalValue (front ++ digits)), rest) := by
  induction digits generalizing front with
  | nil =>
    rw [List.append_nil]
    cases rest with
    | nil => rfl
    | cons c rest =>
      have other : ¬IsDigit c := stop
      rw [List.nil_append, scanPort, if_neg other]
  | cons c digits ih =>
    obtain ⟨digit, tail⟩ := isDigits_cons.mp isDigits
    rw [List.cons_append, scanPort, if_pos digit, ← ofNat_decimalValue_concat front digit, ih tail,
      List.append_assoc, List.singleton_append]

/-! ## The command words -/

section Words

variable (rest : List UInt8)

theorem executeCommand_touch : executeCommand (ascii "touch " ++ rest) =
    nameCommand .createFile "Usage: touch <filename>\n" rest := by
  simp [executeCommand, skipSpaces, charAt, strcmp, strncmp, ascii]

theorem executeCommand_cat : executeCommand (ascii "cat " ++ rest) =
    nameCommand .readFile "Usage: cat <filename>\n" rest := by
  simp [executeCommand, skipSpaces, charAt, strcmp, strncmp, ascii]

theorem executeCommand_write : executeCommand (ascii "write " ++ rest) = writeCommand rest := by
  simp [executeCommand, skipSpaces, charAt, strcmp, strncmp, ascii]

theorem executeCommand_udp : executeCommand (ascii "udp " ++ rest) = udpCommand rest := by
  simp [executeCommand, skipSpaces, charAt, strcmp, strncmp, ascii]

end Words

/-- A string in memory. -/
theorem CStr.at_append_nul (s : CStr) (tail : List UInt8) : CStr.at (s.chars ++ 0 :: tail) = s :=
  CStr.ext (cstr_append_nul s.nulFree tail)

/-- A name that does not start with a space is passed on whole. -/
theorem nameCommand_name (call : CStr → FsOp) (usage : String) {name : CStr}
    (nonempty : name.chars ≠ []) (start : charAt name.chars ≠ 32) (tail : List UInt8) :
    nameCommand call usage (name.chars ++ 0 :: tail) = [.fs (call name)] := by
  have first := charAt_append nonempty (0 :: tail)
  have notNul : charAt name.chars ≠ 0 := fun zero => name.nulFree (zero ▸ charAt_mem nonempty)
  rw [nameCommand, skipSpaces_eq_self (by rwa [first]), if_pos (by rwa [first]),
    CStr.at_append_nul]

end MOKernel
