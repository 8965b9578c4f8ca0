import MOKernel.FsPath
import MOKernel.FsPrinted
import MOKernel.Transcript
import MOKernel.Hierarchy

/-!
# What the filesystem is for

`FsServes` says what the commands mean, in terms of paths: names are looked up among
the children of the working directory, `touch` and `mkdir` add a child under the first
16 characters of the name, `ls` lists the children in some order and `pwd` prints the
path.  It speaks of no slots, no parent fields and no stale bytes; what a new file
contains, and the order of a listing, it leaves open.
-/

namespace MOKernel

/-- A store of files and directories by path. -/
abbrev FsStore := Hierarchy (List UInt8) (List UInt8)

/-- What the caller of the API sees: whether the call returned `-1`, and what it
printed.  No output is the out-of-bounds store of `fs_print_path`. -/
structure FsReply where
  failed : Bool
  out : Option (List UInt8)

/-- A call that returns nothing or not `-1`. -/
def FsReply.prints (text : List UInt8) : FsReply := ⟨false, some text⟩

/-- A call that returns `-1`. -/
def FsReply.refuses (text : List UInt8) : FsReply := ⟨true, some text⟩

def FsResult.reply (result : FsResult Int) : FsReply :=
  ⟨decide (result.ret = -1), some result.out⟩

/-- The answer of a call. -/
def FsOp.reply (st : FsState) : FsOp → FsReply
  | .mkdir name => (fsMkdir st name).reply
  | .createFile name => (fsCreateFile st name).reply
  | .writeFile name data => .prints (fsWriteFile st name data).out
  | .readFile name => .prints (fsReadFile st name).out
  | .cd name => (fsCd st name).reply
  | .rm name => (fsRm st name).reply
  | .rmdir name => (fsRmdir st name).reply
  | .pwd => ⟨false, fsPwd st⟩
  | .listFiles => .prints (fsListFiles st)

/-! ## The specification -/

/-- The name a new entry gets. -/
def CStr.stored (name : CStr) : List UInt8 := name.chars.take fsMaxNameLen

/-- The path as `pwd` prints it. -/
def FsStore.pwdText (h : FsStore) : List UInt8 :=
  (if h.cwd = [] then ascii "/" else joinTexts slash h.cwd) ++ ascii "\n"

/-- A line of `ls`. -/
def listLine : List UInt8 × HNode (List UInt8) → List UInt8
  | (name, .dir) => ascii "[DIR]  " ++ name ++ ascii "\n"
  | (name, .file _) => ascii "[FILE] " ++ name ++ ascii "\n"

/-- The children of the working directory, each once, in some order. -/
structure FsStore.Lists (h : FsStore) (listing : List (List UInt8 × HNode (List UInt8))) :
    Prop where
  names : (listing.map Prod.fst).Nodup
  entries : ∀ name node, (name, node) ∈ listing ↔ h.child name = some node

/-- What the store allows a call to answer and to leave. -/
inductive FsServes (h : FsStore) : FsOp → FsReply → FsStore → Prop
  | mkdirInvalid {name : CStr} : name.chars = [] →
    FsServes h (.mkdir name) (.refuses (ascii "mkdir: invalid name\n")) h
  | mkdirSpecial {name : CStr} : name.chars = ascii "." ∨ name.chars = ascii ".." →
    FsServes h (.mkdir name) (.refuses (ascii "mkdir: cannot use '.' or '..'\n")) h
  | mkdirExists {name : CStr} : MkdirAdmits name → h.child name.chars ≠ none →
    FsServes h (.mkdir name) (.refuses (report "mkdir: '" name "' already exists\n")) h
  | mkdirFull {name : CStr} : MkdirAdmits name → h.child name.chars = none →
    h.size = fsMaxEntries →
    FsServes h (.mkdir name) (.refuses (ascii "mkdir: filesystem full\n")) h
  | mkdir {name : CStr} : MkdirAdmits name → h.child name.chars = none →
    h.size < fsMaxEntries → (absent : h.child name.stored = none) →
    FsServes h (.mkdir name) (.prints []) (h.add name.stored .dir absent)
  | touchInvalid {name : CStr} : name.chars = [] →
    FsServes h (.createFile name) (.refuses (ascii "touch: invalid name\n")) h
  | touchExists {name : CStr} : name.chars ≠ [] → h.child name.chars ≠ none →
    FsServes h (.createFile name) (.refuses (report "touch: '" name "' already exists\n")) h
  | touchFull {name : CStr} : name.chars ≠ [] → h.child name.chars = none →
    h.size = fsMaxEntries →
    FsServes h (.createFile name) (.refuses (ascii "touch: filesystem full\n")) h
  | touch {name : CStr} (content : List UInt8) : name.chars ≠ [] →
    h.child name.chars = none → h.size < fsMaxEntries → (absent : h.child name.stored = none) →
    FsServes h (.createFile name) (.prints []) (h.add name.stored (.file content) absent)
  | writeMissing {name data : CStr} : (∀ old, h.child name.chars ≠ some (.file old)) →
    FsServes h (.writeFile name data) (.prints (report "write: '" name "': no such file\n")) h
  | write {name data : CStr} {old : List UInt8}
    (file : h.child name.chars = some (.file old)) :
    FsServes h (.writeFile name data) (.prints [])
      (h.fill name.chars (data.chars.take (fsMaxFileSize - 1)) file)
  | catMissing {name : CStr} : (∀ old, h.child name.chars ≠ some (.file old)) →
    FsServes h (.readFile name) (.prints (report "cat: '" name "': no such file\n")) h
  | cat {name : CStr} {content : List UInt8} : h.child name.chars = some (.file content) →
    FsServes h (.readFile name) (.prints (content ++ ascii "\n")) h
  | cdNothing {name : CStr} : name.chars = [] →
    FsServes h (.cd name) (.refuses (ascii "cd: missing argument\n")) h
  | cdRoot {name : CStr} : name.chars = ascii "/" →
    FsServes h (.cd name) (.prints []) (h.moveTo [] h.rootDir)
  | cdStay {name : CStr} : name.chars = ascii "." → FsServes h (.cd name) (.prints []) h
  | cdUp {name : CStr} : name.chars = ascii ".." →
    FsServes h (.cd name) (.prints []) (h.moveTo h.cwd.dropLast h.upDir)
  | cdMissing {name : CStr} : CdName name → h.child name.chars = none →
    FsServes h (.cd name) (.refuses (report "cd: '" name "': no such directory\n")) h
  | cdFile {name : CStr} {content : List UInt8} : CdName name →
    h.child name.chars = some (.file content) →
    FsServes h (.cd name) (.refuses (report "cd: '" name "': not a directory\n")) h
  | cdDown {name : CStr} : CdName name → (dir : h.child name.chars = some .dir) →
    FsServes h (.cd name) (.prints []) (h.moveTo (h.cwd ++ [name.chars]) dir)
  | rmMissing {name : CStr} : (∀ old, h.child name.chars ≠ some (.file old)) →
    FsServes h (.rm name) (.refuses (report "rm: '" name "': no such file\n")) h
  | rm {name : CStr} {content : List UInt8}
    (file : h.child name.chars = some (.file content)) :
    FsServes h (.rm name) (.prints []) (h.remove name.chars (h.childless_of_file file))
  | rmdirSpecial {name : CStr} : name.chars = ascii "." ∨ name.chars = ascii ".." →
    FsServes h (.rmdir name) (.refuses (ascii "rmdir: cannot remove '.' or '..'\n")) h
  | rmdirMissing {name : CStr} : name.chars ≠ ascii "." ∧ name.chars ≠ ascii ".." →
    h.child name.chars ≠ some .dir →
    FsServes h (.rmdir name) (.refuses (report "rmdir: '" name "': no such directory\n")) h
  | rmdirNotEmpty {name : CStr} : name.chars ≠ ascii "." ∧ name.chars ≠ ascii ".." →
    h.child name.chars = some .dir → ¬h.Childless name.chars →
    FsServes h (.rmdir name) (.refuses (report "rmdir: '" name "': directory not empty\n")) h
  | rmdir {name : CStr} : name.chars ≠ ascii "." ∧ name.chars ≠ ascii ".." →
    h.child name.chars = some .dir → (childless : h.Childless name.chars) →
    FsServes h (.rmdir name) (.prints []) (h.remove name.chars childless)
  | pwd : FsServes h .pwd (.prints h.pwdText) h
  | listEmpty : h.Lists [] → FsServes h .listFiles (.prints (ascii "(empty)\n")) h
  | list {listing : List (List UInt8 × HNode (List UInt8))} : listing ≠ [] → h.Lists listing →
    FsServes h .listFiles (.prints (listing.flatMap listLine)) h

end MOKernel
