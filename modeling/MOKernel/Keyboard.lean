import MOKernel.CString

/-!
# The keyboard handler

The keyboard part of `kernel.c`: the command line, its history and the scancodes.  The
arrays have their C sizes, and a function returns `none` where the code would leave one.
What the handler does to the console and which command it executes are returned as
effects, in order; nothing it does depends on their outcome.  The ports are left out.
-/

namespace MOKernel

abbrev cmdBufferSize : Nat := 256

abbrev historyMax : Nat := 10

abbrev CmdRow := Vector UInt8 cmdBufferSize

/-- `keyboard_map`; what the list does not reach is 0. -/
def keyboardMap : List UInt8 :=
  [0, 27] ++ ascii "1234567890-=" ++ [8, 9] ++ ascii "qwertyuiop[]" ++ [10, 0] ++
    ascii "asdfghjkl;'" ++ [96, 0, 92] ++ ascii "zxcvbnm,./" ++ [0] ++ ascii "*" ++ [0] ++ ascii " "

/-- `keyboard_map_shift`; what the list does not reach is 0. -/
def keyboardMapShift : List UInt8 :=
  [0, 27] ++ ascii "!@#$%^&*()_+" ++ [8, 9] ++ ascii "QWERTYUIOP" ++ [123, 125, 10, 0] ++
    ascii "ASDFGHJKL:" ++ [34] ++ ascii "~" ++ [0, 124] ++ ascii "ZXCVBNM<>?" ++ [0] ++ ascii "*" ++
    [0] ++ ascii " "

/-- The globals of the keyboard part. -/
structure Keyboard where
  cmdBuffer : CmdRow
  cmdLen : Nat
  shiftPressed : Bool
  ctrlPressed : Bool
  e0Pressed : Bool
  history : Fin historyMax → CmdRow
  historyCount : Nat
  historyIndex : Nat

/-- Their initial values. -/
def keyboardBoot : Keyboard where
  cmdBuffer := Vector.replicate _ 0
  cmdLen := 0
  shiftPressed := false
  ctrlPressed := false
  e0Pressed := false
  history _ := Vector.replicate _ 0
  historyCount := 0
  historyIndex := 0

/-- What the handler does outside: `kprint`, the four lines that rub out the last character
on the screen, `execute_command`. -/
inductive KbdEffect
  | print (s : List UInt8)
  | rubout
  | execute (cmd : List UInt8)
deriving DecidableEq

def cmdClearDisplay (kb : Keyboard) : Keyboard × List KbdEffect :=
  ({ kb with cmdLen := 0 }, List.replicate kb.cmdLen .rubout)

/-- Append a character to the line and echo it, if there is room. -/
def cmdPut (kb : Keyboard) (c : UInt8) : Keyboard × List KbdEffect :=
  if room : kb.cmdLen < cmdBufferSize - 1 then
    ({ kb with
        cmdBuffer := kb.cmdBuffer.set kb.cmdLen c (by omega)
        cmdLen := kb.cmdLen + 1 }, [.print [c]])
  else (kb, [])

def cmdPutAll (kb : Keyboard) : List UInt8 → Keyboard × List KbdEffect
  | [] => (kb, [])
  | c :: str =>
    let put := cmdPut kb c
    let rest := cmdPutAll put.1 str
    (rest.1, put.2 ++ rest.2)

def cmdSet (kb : Keyboard) (str : List UInt8) : Keyboard × List KbdEffect :=
  let cleared := cmdClearDisplay kb
  let set := cmdPutAll cleared.1 str
  (set.1, cleared.2 ++ set.2)

/-- The string in a row of the history; `none` if there is no such row or no NUL in it. -/
def historyString (kb : Keyboard) (j : Nat) : Option (List UInt8) :=
  if inside : j < historyMax then
    let row := (kb.history ⟨j, inside⟩).toList
    if 0 ∈ row then some (cstr row) else none
  else none

def historyUp (kb : Keyboard) : Option (Keyboard × List KbdEffect) :=
  if kb.historyCount = 0 then some (kb, [])
  else if kb.historyIndex > 0 then
    let kb := { kb with historyIndex := kb.historyIndex - 1 }
    (historyString kb kb.historyIndex).map (cmdSet kb)
  else some (kb, [])

def historyDown (kb : Keyboard) : Option (Keyboard × List KbdEffect) :=
  if kb.historyCount = 0 then some (kb, [])
  else if kb.historyIndex < kb.historyCount - 1 then
    let kb := { kb with historyIndex := kb.historyIndex + 1 }
    (historyString kb kb.historyIndex).map (cmdSet kb)
  else if kb.historyIndex = kb.historyCount - 1 then
    some (cmdSet { kb with historyIndex := kb.historyIndex + 1 } [])
  else some (kb, [])

/-- `while (n > 0 && drop(buf[n - 1])) n--;` -/
def dropBack (buf : CmdRow) (drop : UInt8 → Bool) : Nat → Option Nat
  | 0 => some 0
  | n + 1 =>
    match buf[n]? with
    | none => none
    | some c => if drop c then dropBack buf drop n else some (n + 1)

/-- Each step of either loop rubs out one character. -/
def backspaceWord (kb : Keyboard) : Option (Keyboard × List KbdEffect) := do
  let n ← dropBack kb.cmdBuffer (· == 32) kb.cmdLen
  let n ← dropBack kb.cmdBuffer (· != 32) n
  pure ({ kb with cmdLen := n }, List.replicate (kb.cmdLen - n) .rubout)

/-- Move the rows of the history up by one: row `j` takes the string of row `j + 1`. -/
def shiftRows (rows : Fin historyMax → CmdRow) : Option (Fin historyMax → CmdRow) :=
  if ∀ j : Fin historyMax, 0 < j.val → 0 ∈ (rows j).toList then
    some fun j =>
      if next : j.val + 1 < historyMax then
        overwrite (rows j) (cstr (rows ⟨j.val + 1, next⟩).toList ++ [0])
      else rows j
  else none

/-- The part of the Enter branch that stores a line that is not empty. -/
def rememberLine (kb : Keyboard) : Option Keyboard :=
  if kb.cmdLen > 0 then
    let line := kb.cmdBuffer.toList.take (kb.cmdLen + 1)
    if room : kb.historyCount < historyMax then
      some { kb with
        history := Function.update kb.history ⟨kb.historyCount, room⟩
          (overwrite (kb.history ⟨kb.historyCount, room⟩) line)
        historyCount := kb.historyCount + 1 }
    else
      (shiftRows kb.history).map fun rows =>
        { kb with history := Function.update rows 9 (overwrite (rows 9) line) }
  else some kb

def enterLine (kb : Keyboard) : Option (Keyboard × List KbdEffect) :=
  if inside : kb.cmdLen < cmdBufferSize then
    let kb := { kb with cmdBuffer := kb.cmdBuffer.set kb.cmdLen 0 }
    (rememberLine kb).map fun kb =>
      ({ kb with historyIndex := kb.historyCount, cmdLen := 0 },
        [.print (ascii "\n"), .execute (cstr kb.cmdBuffer.toList), .print (ascii "OS> ")])
  else none

def keyboardHandlerMain (kb : Keyboard) (status keycode : UInt8) :
    Option (Keyboard × List KbdEffect) :=
  if status &&& 0x01 = 0 then some (kb, [])
  else if keycode = 0xE0 then some ({ kb with e0Pressed := true }, [])
  else if kb.e0Pressed then
    let kb := { kb with e0Pressed := false }
    if keycode &&& 0x80 ≠ 0 then some (kb, [])
    else if keycode = 0x48 then historyUp kb
    else if keycode = 0x50 then historyDown kb
    else some (kb, [])
  else if keycode = 0x1D then some ({ kb with ctrlPressed := true }, [])
  else if keycode = 0x9D then some ({ kb with ctrlPressed := false }, [])
  else if keycode = 0x2A ∨ keycode = 0x36 then some ({ kb with shiftPressed := true }, [])
  else if keycode = 0xAA ∨ keycode = 0xB6 then some ({ kb with shiftPressed := false }, [])
  else if keycode &&& 0x80 ≠ 0 then some (kb, [])
  else
    let chr := (if kb.shiftPressed then keyboardMapShift else keyboardMap).getD keycode.toNat 0
    if kb.ctrlPressed ∧ (chr = 119 ∨ chr = 87) then backspaceWord kb
    else if kb.ctrlPressed ∧ (chr = 112 ∨ chr = 80) then historyUp kb
    else if chr = 10 then enterLine kb
    else if chr = 8 then
      if kb.cmdLen > 0 then some ({ kb with cmdLen := kb.cmdLen - 1 }, [.rubout])
      else some (kb, [])
    else if chr ≠ 0 then some (cmdPut kb chr)
    else some (kb, [])

/-- A run of the handler over status and scancode bytes, with all its effects. -/
def keyboardRun (kb : Keyboard) : List (UInt8 × UInt8) → Option (Keyboard × List KbdEffect)
  | [] => some (kb, [])
  | (status, keycode) :: events => do
    let (kb, effects) ← keyboardHandlerMain kb status keycode
    let (kb, rest) ← keyboardRun kb events
    pure (kb, effects ++ rest)

end MOKernel
