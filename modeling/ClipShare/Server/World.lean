import ClipShare.Interaction.Program
import ClipShare.Posix.Strings

namespace ClipShare

open Interaction Posix

/-!
# What a session can do

A session is a process that serves one connection.  It talks to its surroundings through
calls: to its socket, to the clock and the random number generator, to the file system and to
the desktop (clipboard and screen).

* `Call` — the calls, each with the type of its answer;
* `Session` — what belongs to one session: its connection, what its surroundings will answer
  (`Oracle`), and a record of what it has done to the file tree;
* `Host` — what all sessions share: the file tree, the working directory, the clipboard and the
  screen;
* `respond` — what each call does.

The calls that change files, and those that open or list them, can fail at any time (`Oracle.fs`)
and then change nothing.  `access` and `stat` answer truthfully.

There are no buffers: what `fwrite` takes is in the file at once, and what the disk has no room for
is not taken (`Oracle.disk`).  The source does not look at the result of `fclose`, so data that is
still in a buffer may be lost without a word.  What is said here about the contents of files after
a success is said for a disk with room (`Oracle.Roomy`) where nothing else rules that out.

Outside of the tree are two files that the server keeps for itself: the error log, of which a
session has its own part, and the empty file that `create_temp_file` makes before the clipboard is
set.
-/

/-- The handlers of the protocol methods. -/
inductive Handler
  | getTextV1 | sendTextV1 | getFilesV1 | sendFileV1 | getImageV1 | infoV1
  | getFilesV2 | sendFilesV2
  | getCopiedImageV3 | getScreenshotV3 | getFilesV3 | sendFilesV3
  | getTextV4 | sendTextV4 | getFilesV4 | sendFilesV4 | getImageV4 | getCopiedImageV4
  | getScreenshotV4 | getAnyV4 | infoV4
  deriving DecidableEq, Repr

/-- The kinds of things that `stat` tells apart. -/
inductive Kind
  | dir
  | regular
  | other
  deriving DecidableEq, Repr

/-- A stream opened for reading: a regular file, by its inode number, or something else. -/
inductive Stream
  | regular (ino : Nat)
  | other
  deriving DecidableEq, Repr

/-- The calls of a session. -/
inductive Call
  | readSock (n : Nat)
  | writeSock (data : Bytes)
  | closeSocket (await shutdown : Bool)
  | time
  | rand
  | access (path : Bytes)
  | stat (path : Bytes)
  | mkdir (path : Bytes)
  | rmdir (path : Bytes)
  | rename (old new : Bytes)
  | remove (path : Bytes)
  | readDir (path : Bytes)
  | openWrite (path : Bytes)
  | fwrite (ino off : Nat) (data : Bytes)
  | openRead (path : Bytes)
  | fileSize (s : Stream)
  | fread (s : Stream) (off n : Nat)
  | xclipOut (target : Option Bytes)
  | xclipIn (target : Option Bytes) (data : Bytes)
  | cutFiles (paths : List Bytes)
  | screenshot (disp : UInt16)
  | error (msg : Bytes)
  | enter (handler : Handler)
  deriving DecidableEq

/-- The answers.  Reading delivers all the bytes asked for or fails; `mkdir` and its like say
    whether they succeeded; `fwrite` says how many bytes were written; `xclip_util` delivers the
    bytes that it counts, and what the string in its buffer goes on with behind them. -/
@[reducible] def Call.Resp : Call → Type
  | .readSock _ => Option Bytes
  | .writeSock _ => Bool
  | .closeSocket _ _ => Unit
  | .time => UInt32
  | .rand => UInt32
  | .access _ => Bool
  | .stat _ => Option Kind
  | .mkdir _ => Bool
  | .rmdir _ => Bool
  | .rename _ _ => Bool
  | .remove _ => Bool
  | .readDir _ => Option (List Name)
  | .openWrite _ => Option Nat
  | .fwrite _ _ _ => Nat
  | .openRead _ => Option Stream
  | .fileSize _ => Int
  | .fread _ _ _ => Bytes
  | .xclipOut _ => Option (Bytes × Bytes)
  | .xclipIn _ _ => Bool
  | .cutFiles _ => Bool
  | .screenshot _ => Option Bytes
  | .error _ => Unit
  | .enter _ => Unit

/-- The signature of session programs. -/
abbrev Calls : Sig := ⟨Call, Call.Resp⟩

/-- A session program. -/
abbrev Proc := Prog Calls

/-- What the surroundings of a session answer where the program cannot know it: the `k`-th call
    of the session uses the `k`-th entry. -/
structure Oracle where
  /-- Does a read fail although the client sent enough? -/
  read : Nat → Bool
  /-- Does a write fail before its last byte, and after how many bytes? -/
  write : Nat → Option Nat
  /-- Does a call to the file system or the desktop fail? -/
  fs : Nat → Bool
  /-- Is the disk full before the last byte of a write, and after how many bytes? -/
  disk : Nat → Option Nat
  time : Nat → UInt32
  rand : Nat → UInt32
  /-- The order in which a directory is listed. -/
  order : Nat → List Name → List Name
  order_perm : ∀ k ns, (order k ns).Perm ns

/-- Nothing fails, the clock stands still and directories are listed in their own order. -/
def Oracle.calm : Oracle where
  read _ := false
  write _ := none
  fs _ := false
  disk _ := none
  time _ := 0
  rand _ := 0
  order _ ns := ns
  order_perm _ ns := List.Perm.refl ns

/-- The disk takes everything that is written. -/
def Oracle.Roomy (o : Oracle) : Prop := ∀ k, o.disk k = none

/-- The state of one session.  The last three fields record what it has done to the tree:
    `held` is the location that it last found absent, as long as it has not used it; `tmp` is the
    directory it made first; `dests` are the locations it put its results at. -/
structure Session where
  input : Bytes
  output : Bytes
  closed : Bool
  oracle : Oracle
  calls : Nat
  log : List Bytes
  held : Option Path
  tmp : Option Path
  dests : List Path

/-- A session that has not done anything yet. -/
def Session.fresh (input : Bytes) (oracle : Oracle) : Session where
  input := input
  output := []
  closed := false
  oracle := oracle
  calls := 0
  log := []
  held := none
  tmp := none
  dests := []

/-- The connection is open, and nothing will fail. -/
structure Session.Reliable (l : Session) : Prop where
  opened : l.closed = false
  read : ∀ k, l.oracle.read k = false
  write : ∀ k, l.oracle.write k = none
  fs : ∀ k, l.oracle.fs k = false
  roomy : l.oracle.Roomy

theorem Session.fresh_reliable (input : Bytes) : (Session.fresh input .calm).Reliable :=
  ⟨rfl, fun _ => rfl, fun _ => rfl, fun _ => rfl, fun _ => rfl⟩

/-- No call to the file system or the desktop will fail. -/
def Session.Sturdy (l : Session) : Prop := ∀ k, l.oracle.fs k = false

/-- The target that stands for the list of all targets. -/
def targetsName : Bytes := ascii "TARGETS"

/-- What the clipboard answers for each target (`none` is the plain text), what the list of targets
    goes on with in its buffer, the answers the clipboard gives once data was put in under a
    target, and the screen. -/
structure Desktop where
  clipboard : Option Bytes → Option Bytes
  behind : Bytes
  offer : Option Bytes → Bytes → Option Bytes → Option Bytes
  offer_self : ∀ t d, offer t d t = some d
  cut : List Bytes → Option Bytes → Option Bytes
  screen : UInt16 → Option Bytes

/-- What all sessions share. -/
structure Host where
  fs : FileSystem
  cwd : Path
  desktop : Desktop

/-- An empty clipboard and no screen; what is put in under a target is all that is offered. -/
def Desktop.empty : Desktop where
  clipboard _ := none
  behind := []
  offer t d t' := if t' = t then some d else none
  offer_self _ _ := if_pos rfl
  cut _ _ := none
  screen _ := none

namespace Desktop

variable (d : Desktop)

/-- What `xclip_util` reads for a target. -/
def read (target : Option Bytes) : Option (Bytes × Bytes) :=
  (d.clipboard target).map fun buf => (buf, if target = some targetsName then d.behind else [])

/-- The clipboard has a new owner, whose list of targets is short. -/
def owned (clipboard : Option Bytes → Option Bytes) : Desktop :=
  { d with clipboard := clipboard, behind := [] }

end Desktop

namespace Host

/-- Nothing but the root directory, which is the working directory. -/
def empty : Host := ⟨.bare, [], .empty⟩

variable (h : Host)

/-- The location of the name that a path string asks for, read off the string. -/
def locate (path : Bytes) : Path := FileSystem.start h.cwd path ++ plain (components path)

def withFs (fs : FileSystem) : Host := { h with fs := fs }

@[simp] theorem withFs_fs (fs : FileSystem) : (h.withFs fs).fs = fs := rfl
@[simp] theorem withFs_cwd (fs : FileSystem) : (h.withFs fs).cwd = h.cwd := rfl
@[simp] theorem withFs_desktop (fs : FileSystem) : (h.withFs fs).desktop = h.desktop := rfl

end Host

/-! ### What the calls do -/

/-- The kind of a node. -/
def kindOf : Node → Kind
  | .dir => .dir
  | .file _ _ => .regular
  | .special => .other

/-- `stat`. -/
def statAt (h : Host) (path : Bytes) : Option Kind := do
  let p ← h.fs.resolve h.cwd path
  let nd ← h.fs.node p
  return kindOf nd

/-- `mkdir`: the new location and the tree. -/
def mkdirOf (h : Host) (path : Bytes) : Option (Path × FileSystem) := do
  let (p, n) ← h.fs.resolveNew h.cwd path
  let fs ← h.fs.mkdirAt p n
  return (p ++ [n], fs)

/-- `rmdir`. -/
def rmdirOf (h : Host) (path : Bytes) : Option (Path × FileSystem) := do
  let p ← h.fs.resolve h.cwd path
  let fs ← h.fs.rmdirAt p
  return (p, fs)

/-- `remove`. -/
def removeOf (h : Host) (path : Bytes) : Option (Path × FileSystem) := do
  let p ← h.fs.resolve h.cwd path
  let fs ← h.fs.removeAt p
  return (p, fs)

/-- `rename`. -/
def renameOf (h : Host) (old new : Bytes) : Option (Path × FileSystem) := do
  let src ← h.fs.resolve h.cwd old
  let (p, n) ← h.fs.resolveNew h.cwd new
  let fs ← h.fs.renameAt src p n
  return (p ++ [n], fs)

/-- `fopen` for writing: the location, the inode number and the tree.  A path that ends in a
    separator can only name a directory, which cannot be opened for writing. -/
def openWriteOf (h : Host) (path : Bytes) : Option (Path × Nat × FileSystem) := do
  if path.getLast? = some sep then none
  else
    let (p, n) ← h.fs.resolveNew h.cwd path
    let (ino, fs) ← h.fs.createAt p n
    return (p ++ [n], ino, fs)

/-- `opendir` and `readdir`, without `.` and `..`, in the order of the tree. -/
def readDirOf (h : Host) (path : Bytes) : Option (List Name) := do
  let p ← h.fs.resolve h.cwd path
  if h.fs.node p = some .dir then some (h.fs.list p) else none

/-- `fopen` for reading. -/
def openReadOf (h : Host) (path : Bytes) : Option Stream := do
  let p ← h.fs.resolve h.cwd path
  match ← h.fs.node p with
  | .file ino _ => return .regular ino
  | _ => return .other

/-- `get_file_size`: only regular files have one. -/
def fileSizeOf (h : Host) : Stream → Int
  | .regular ino => match h.fs.dataOf ino with
    | some d => d.length
    | none => -1
  | .other => -1

/-- `fread` of `n` bytes from position `off`. -/
def freadOf (h : Host) (s : Stream) (off n : Nat) : Bytes :=
  match s with
  | .regular ino => (((h.fs.dataOf ino).getD []).drop off).take n
  | .other => []

namespace Session

variable (l : Session)

/-- One more call was made. -/
def tick : Session := { l with calls := l.calls + 1 }

/-- Does the current call to the file system fail? -/
def fault : Bool := l.oracle.fs l.calls

/-- How much of `data` the current call to `fwrite` writes. -/
def written (data : Bytes) : Nat := match l.oracle.disk l.calls with
  | some k => min k data.length
  | none => data.length

/-- A location was found absent. -/
def hold (p : Path) : Session := { l with held := some p }

/-- The location that was held has been used. -/
def release : Session := { l with held := none }

/-- A directory was made: the first one is the session's own directory. -/
def made (p : Path) : Session :=
  { l with tmp := if l.tmp.isNone then some p else l.tmp, held := none }

/-- A directory was removed. -/
def unmade (p : Path) : Session :=
  { l with tmp := if l.tmp = some p then none else l.tmp, held := none }

/-- A file was opened for writing: without an own directory, it is a result. -/
def opened (p : Path) : Session :=
  { l with dests := if l.tmp.isNone then l.dests ++ [p] else l.dests, held := none }

/-- An entry was moved to its final location. -/
def moved (p : Path) : Session := { l with dests := l.dests ++ [p], held := none }

/-- A file was removed. -/
def removed (p : Path) : Session := { l with dests := l.dests.filter (· ≠ p) }

/-- `read_sock`. -/
def readSock (n : Nat) : Option Bytes × Session :=
  if n = 0 then (some [], l.tick)
  else if l.closed ∨ l.oracle.read l.calls then (none, l.tick)
  else if l.input.length < n then (none, { l.tick with input := [] })
  else (some (l.input.take n), { l.tick with input := l.input.drop n })

/-- `write_sock`. -/
def writeSock (data : Bytes) : Bool × Session :=
  if data = [] then (true, l.tick)
  else if l.closed then (false, l.tick)
  else match l.oracle.write l.calls with
    | some k => (false, { l.tick with output := l.output ++ data.take (min k (data.length - 1)) })
    | none => (true, { l.tick with output := l.output ++ data })

/-- `_close_socket`: waiting for the peer reads one more byte.  A closed socket stays closed. -/
def closeSocket (await : Bool) : Session :=
  if l.closed then l.tick
  else { l.tick with closed := true, input := if await then l.input.drop 1 else l.input }

end Session

/-- What a call answers when `Oracle.fs` makes it fail, if it can fail. -/
def Call.failed : (c : Call) → Option c.Resp
  | .mkdir _ | .rmdir _ | .rename _ _ | .remove _ => some false
  | .readDir _ => some none
  | .openWrite _ => some none
  | .openRead _ => some none
  | .fileSize _ => some (-1 : Int)
  | .fread _ _ _ => some []
  | .xclipOut _ => some none
  | .xclipIn _ _ => some false
  | .cutFiles _ => some false
  | .screenshot _ => some none
  | .readSock _ | .writeSock _ | .closeSocket _ _ | .time | .rand | .access _ | .stat _
  | .fwrite _ _ _ | .error _ | .enter _ => none

/-- What a call does when it does not fail. -/
def execute : Machine Calls (Session × Host)
  | .readSock n, (l, h) => ((l.readSock n).1, (l.readSock n).2, h)
  | .writeSock data, (l, h) => ((l.writeSock data).1, (l.writeSock data).2, h)
  | .closeSocket await _, (l, h) => ((), l.closeSocket await, h)
  | .time, (l, h) => (l.oracle.time l.calls, l.tick, h)
  | .rand, (l, h) => (l.oracle.rand l.calls, l.tick, h)
  | .access path, (l, h) =>
      if (h.fs.resolve h.cwd path).isSome then (true, l.tick, h)
      -- the session remembers the name that it has found to be free
      else (false, l.tick.hold (h.locate path), h)
  | .stat path, (l, h) => (statAt h path, l.tick, h)
  | .mkdir path, (l, h) => match mkdirOf h path with
      | some (p, fs) => (true, l.tick.made p, h.withFs fs)
      | none => (false, l.tick.release, h)
  | .rmdir path, (l, h) => match rmdirOf h path with
      | some (p, fs) => (true, l.tick.unmade p, h.withFs fs)
      | none => (false, l.tick, h)
  | .rename old new, (l, h) => match renameOf h old new with
      | some (p, fs) => (true, l.tick.moved p, h.withFs fs)
      | none => (false, l.tick.release, h)
  | .remove path, (l, h) => match removeOf h path with
      | some (p, fs) => (true, l.tick.removed p, h.withFs fs)
      | none => (false, l.tick, h)
  | .readDir path, (l, h) => ((readDirOf h path).map (l.oracle.order l.calls), l.tick, h)
  | .openWrite path, (l, h) => match openWriteOf h path with
      | some (p, ino, fs) => (some ino, l.tick.opened p, h.withFs fs)
      | none => (none, l.tick.release, h)
  | .fwrite ino off data, (l, h) =>
      -- `fwrite` may write less than it was given
      let k := l.written data
      (k, l.tick, h.withFs (h.fs.writeAt ino off (data.take k)))
  | .openRead path, (l, h) => (openReadOf h path, l.tick, h)
  | .fileSize s, (l, h) => (fileSizeOf h s, l.tick, h)
  | .fread s off n, (l, h) => (freadOf h s off n, l.tick, h)
  | .xclipOut target, (l, h) => (h.desktop.read target, l.tick, h)
  | .xclipIn target data, (l, h) =>
      (true, l.tick, { h with desktop := h.desktop.owned (h.desktop.offer target data) })
  | .cutFiles paths, (l, h) =>
      (true, l.tick, { h with desktop := h.desktop.owned (h.desktop.cut paths) })
  | .screenshot disp, (l, h) => (h.desktop.screen disp, l.tick, h)
  | .error msg, (l, h) => ((), { l.tick with log := l.log ++ [msg] }, h)
  | .enter _, (l, h) => ((), l.tick, h)

/-- What a call does: it fails if the oracle says so and it can. -/
def respond : Machine Calls (Session × Host)
  | c, (l, h) => match l.fault, c.failed with
    | true, some r => (r, l.tick.release, h)
    | _, _ => execute c (l, h)

/-! ### Lemmas on the calls -/

/-- A call that cannot fail. -/
theorem respond_of_failed_none {c : Call} (hc : c.failed = none) (l : Session) (h : Host) :
    respond c (l, h) = execute c (l, h) := by
  simp only [respond, hc]
  cases l.fault <;> rfl

/-- A call that the oracle lets succeed. -/
theorem respond_of_fault_none {l : Session} (hl : l.fault = false) (c : Call) (h : Host) :
    respond c (l, h) = execute c (l, h) := by
  simp only [respond, hl]

/-- A call that the oracle makes fail. -/
theorem respond_of_fault {l : Session} (hl : l.fault = true) {c : Call} {r : c.Resp}
    (hc : c.failed = some r) (h : Host) : respond c (l, h) = (r, l.tick.release, h) := by
  simp only [respond, hl, hc]

section results

variable {l : Session} {h : Host} {p q : Path} {n : Name} {fs : FileSystem}

theorem respond_mkdir {path : Bytes} (hl : l.fault = false)
    (hnew : h.fs.resolveNew h.cwd path = some (p, n)) (hmk : h.fs.mkdirAt p n = some fs) :
    respond (.mkdir path) (l, h) = (true, l.tick.made (p ++ [n]), h.withFs fs) := by
  have hof : mkdirOf h path = some (p ++ [n], fs) := by simp [mkdirOf, hnew, hmk]
  rw [respond_of_fault_none hl]
  simp only [execute, hof]

theorem respond_mkdir_none {path : Bytes} (hl : l.fault = false)
    (hnew : h.fs.resolveNew h.cwd path = some (p, n)) (hmk : h.fs.mkdirAt p n = none) :
    respond (.mkdir path) (l, h) = (false, l.tick.release, h) := by
  have hof : mkdirOf h path = none := by simp [mkdirOf, hnew, hmk]
  rw [respond_of_fault_none hl]
  simp only [execute, hof]

theorem respond_rmdir {path : Bytes} (hl : l.fault = false)
    (hres : h.fs.resolve h.cwd path = some p) (hrm : h.fs.rmdirAt p = some fs) :
    respond (.rmdir path) (l, h) = (true, l.tick.unmade p, h.withFs fs) := by
  have hof : rmdirOf h path = some (p, fs) := by simp [rmdirOf, hres, hrm]
  rw [respond_of_fault_none hl]
  simp only [execute, hof]

theorem respond_rmdir_none {path : Bytes} (hl : l.fault = false)
    (hres : h.fs.resolve h.cwd path = some p) (hrm : h.fs.rmdirAt p = none) :
    respond (.rmdir path) (l, h) = (false, l.tick, h) := by
  have hof : rmdirOf h path = none := by simp [rmdirOf, hres, hrm]
  rw [respond_of_fault_none hl]
  simp only [execute, hof]

theorem respond_rename {old new : Bytes} (hl : l.fault = false)
    (hres : h.fs.resolve h.cwd old = some q) (hnew : h.fs.resolveNew h.cwd new = some (p, n))
    (hrn : h.fs.renameAt q p n = some fs) :
    respond (.rename old new) (l, h) = (true, l.tick.moved (p ++ [n]), h.withFs fs) := by
  have hof : renameOf h old new = some (p ++ [n], fs) := by simp [renameOf, hres, hnew, hrn]
  rw [respond_of_fault_none hl]
  simp only [execute, hof]

theorem respond_rename_none {old new : Bytes} (hl : l.fault = false)
    (hres : h.fs.resolve h.cwd old = some q) (hnew : h.fs.resolveNew h.cwd new = some (p, n))
    (hrn : h.fs.renameAt q p n = none) :
    respond (.rename old new) (l, h) = (false, l.tick.release, h) := by
  have hof : renameOf h old new = none := by simp [renameOf, hres, hnew, hrn]
  rw [respond_of_fault_none hl]
  simp only [execute, hof]

/-- `remove` either takes away what is at the location that the path string resolves to, or does
    nothing. -/
theorem respond_remove_cases {path : Bytes} (hl : l.fault = false) :
    (∃ q fs, h.fs.resolve h.cwd path = some q ∧ h.fs.removeAt q = some fs ∧
      respond (.remove path) (l, h) = (true, l.tick.removed q, h.withFs fs)) ∨
    respond (.remove path) (l, h) = (false, l.tick, h) := by
  rw [respond_of_fault_none hl]
  cases hof : removeOf h path with
  | none => exact .inr (by simp only [execute, hof])
  | some r =>
    obtain ⟨q, fs⟩ := r
    have hres : h.fs.resolve h.cwd path = some q ∧ h.fs.removeAt q = some fs := by
      simp only [removeOf, Option.bind_eq_bind, Option.bind_eq_some_iff, Option.pure_def,
        Option.some.injEq, Prod.mk.injEq] at hof
      obtain ⟨q', hres, fs', hrm, rfl, rfl⟩ := hof
      exact ⟨hres, hrm⟩
    exact .inl ⟨q, fs, hres.1, hres.2, by simp only [execute, hof]⟩

/-- `fopen` for writing creates a file at a free name. -/
theorem openWriteOf_new {path : Bytes} (hsep : path.getLast? ≠ some sep)
    (hnew : h.fs.resolveNew h.cwd path = some (p, n)) (hdir : h.fs.node p = some .dir)
    (habsent : h.fs.node (p ++ [n]) = none) :
    ∃ fs, openWriteOf h path = some (p ++ [n], h.fs.nextIno, fs) ∧
      ∀ q, fs.node q = if q = p ++ [n] then some (.file h.fs.nextIno []) else h.fs.node q := by
  obtain ⟨fs, hcreate, hnode, -⟩ := FileSystem.createAt_new hdir habsent
  exact ⟨fs, by simp [openWriteOf, hsep, hnew, hcreate], hnode⟩

theorem respond_openWrite {path : Bytes} {ino : Nat} (hl : l.fault = false)
    (hof : openWriteOf h path = some (p, ino, fs)) :
    respond (.openWrite path) (l, h) = (some ino, l.tick.opened p, h.withFs fs) := by
  rw [respond_of_fault_none hl]
  simp only [execute, hof]

theorem respond_readDir {path : Bytes} (hl : l.fault = false)
    (hres : h.fs.resolve h.cwd path = some p) (hdir : h.fs.node p = some .dir) :
    respond (.readDir path) (l, h) =
      (some (l.oracle.order l.calls (h.fs.list p)), l.tick, h) := by
  have hof : readDirOf h path = some (h.fs.list p) := by simp [readDirOf, hres, hdir]
  rw [respond_of_fault_none hl]
  simp only [execute, hof, Option.map_some]

end results

@[simp] theorem respond_readSock (n : Nat) (l : Session) (h : Host) :
    respond (.readSock n) (l, h) = ((l.readSock n).1, (l.readSock n).2, h) :=
  respond_of_failed_none rfl l h

@[simp] theorem respond_writeSock (data : Bytes) (l : Session) (h : Host) :
    respond (.writeSock data) (l, h) = ((l.writeSock data).1, (l.writeSock data).2, h) :=
  respond_of_failed_none rfl l h

@[simp] theorem respond_closeSocket (await shutdown : Bool) (l : Session) (h : Host) :
    respond (.closeSocket await shutdown) (l, h) = ((), l.closeSocket await, h) :=
  respond_of_failed_none rfl l h

@[simp] theorem respond_error (msg : Bytes) (l : Session) (h : Host) :
    respond (.error msg) (l, h) = ((), { l.tick with log := l.log ++ [msg] }, h) :=
  respond_of_failed_none rfl l h

@[simp] theorem respond_enter (hd : Handler) (l : Session) (h : Host) :
    respond (.enter hd) (l, h) = ((), l.tick, h) :=
  respond_of_failed_none rfl l h

/-- The calls on the socket. -/
def Call.onSocket : Call → Bool
  | .readSock _ | .writeSock _ | .closeSocket _ _ => true
  | _ => false

/-- The parts of two sessions that belong to the connection are the same. -/
def Session.SameSocket (l l' : Session) : Prop :=
  l'.input = l.input ∧ l'.output = l.output ∧ l'.closed = l.closed ∧ l'.oracle = l.oracle

theorem Session.SameSocket.trans {l l1 l2 : Session} (h1 : l.SameSocket l1)
    (h2 : l1.SameSocket l2) : l.SameSocket l2 :=
  ⟨h2.1.trans h1.1, h2.2.1.trans h1.2.1, h2.2.2.1.trans h1.2.2.1, h2.2.2.2.trans h1.2.2.2⟩

/-- Calls that are not on the socket leave the connection alone. -/
theorem respond_sameSocket {c : Call} (hc : c.onSocket = false) (l : Session) (h : Host) :
    l.SameSocket (respond c (l, h)).2.1 := by
  have hexec : l.SameSocket (execute c (l, h)).2.1 := by
    cases c with
    | readSock | writeSock | closeSocket => cases hc
    | access | mkdir | rmdir | rename | remove | openWrite =>
      simp only [execute]
      split <;> exact ⟨rfl, rfl, rfl, rfl⟩
    | _ => exact ⟨rfl, rfl, rfl, rfl⟩
  simp only [respond]
  split
  · exact ⟨rfl, rfl, rfl, rfl⟩
  · exact hexec

/-- No call changes what the surroundings will answer. -/
theorem respond_oracle (c : Call) (s : Session × Host) : (respond c s).2.1.oracle = s.1.oracle := by
  obtain ⟨l, h⟩ := s
  cases hc : c.onSocket with
  | false => exact (respond_sameSocket hc l h).2.2.2
  | true =>
    cases c with
    | readSock n =>
      rw [respond_readSock]
      unfold Session.readSock
      split_ifs <;> rfl
    | writeSock data =>
      rw [respond_writeSock]
      unfold Session.writeSock
      split_ifs
      · rfl
      · rfl
      · split <;> rfl
    | closeSocket await shutdown =>
      rw [respond_closeSocket]
      unfold Session.closeSocket
      split <;> rfl
    | _ => cases hc

/-- Every call is counted. -/
theorem respond_calls (c : Call) (s : Session × Host) :
    (respond c s).2.1.calls = s.1.calls + 1 := by
  obtain ⟨l, h⟩ := s
  have hexec : (execute c (l, h)).2.1.calls = l.calls + 1 := by
    cases c with
    | readSock n =>
      show (l.readSock n).2.calls = _
      unfold Session.readSock
      split_ifs <;> rfl
    | writeSock data =>
      show (l.writeSock data).2.calls = _
      unfold Session.writeSock
      split_ifs
      · rfl
      · rfl
      · split <;> rfl
    | closeSocket await shutdown =>
      show (l.closeSocket await).calls = _
      unfold Session.closeSocket
      split <;> rfl
    | access | mkdir | rmdir | rename | remove | openWrite =>
      simp only [execute]
      split <;> rfl
    | _ => rfl
  simp only [respond]
  split
  · rfl
  · exact hexec

namespace Session

variable (l : Session)

@[simp] theorem tick_input : l.tick.input = l.input := rfl
@[simp] theorem tick_output : l.tick.output = l.output := rfl
@[simp] theorem tick_closed : l.tick.closed = l.closed := rfl
@[simp] theorem tick_oracle : l.tick.oracle = l.oracle := rfl
@[simp] theorem tick_calls : l.tick.calls = l.calls + 1 := rfl
@[simp] theorem tick_held : l.tick.held = l.held := rfl
@[simp] theorem tick_tmp : l.tick.tmp = l.tmp := rfl
@[simp] theorem tick_dests : l.tick.dests = l.dests := rfl

variable {l} in
/-- The first directory becomes the session's own one. -/
theorem made_tmp_of_none (h : l.tmp = none) (p : Path) : (l.tick.made p).tmp = some p := by
  simp [made, h]

variable {l} in
theorem made_tmp_of_some {t : Path} (h : l.tmp = some t) (p : Path) :
    (l.tick.made p).tmp = l.tmp := by
  simp [made, h]

variable {l} in
theorem unmade_tmp {t : Path} (h : l.tmp = some t) : (l.tick.unmade t).tmp = none := by
  simp [unmade, h]

variable {l} in
/-- Without an own directory, a file is a result. -/
theorem opened_dests_of_none (h : l.tmp = none) (p : Path) :
    (l.tick.opened p).dests = l.dests ++ [p] := by
  simp [opened, h]

variable {l} in
theorem opened_dests_of_some {t : Path} (h : l.tmp = some t) (p : Path) :
    (l.tick.opened p).dests = l.dests := by
  simp [opened, h]

theorem mem_removed_dests {p q : Path} : q ∈ (l.tick.removed p).dests ↔ q ∈ l.dests ∧ q ≠ p := by
  simp [removed]

/-- A read that finds enough. -/
theorem readSock_ok {n : Nat} (hc : l.closed = false) (hr : l.oracle.read l.calls = false)
    (hn : n ≤ l.input.length) :
    l.readSock n = (some (l.input.take n), { l.tick with input := l.input.drop n }) := by
  unfold readSock
  by_cases h0 : n = 0
  · subst h0; rfl
  · rw [if_neg h0, if_neg (by simp [hc, hr]), if_neg (by omega)]

/-- A write that goes through. -/
theorem writeSock_ok {data : Bytes} (hc : l.closed = false) (hw : l.oracle.write l.calls = none) :
    l.writeSock data = (true, { l.tick with output := l.output ++ data }) := by
  unfold writeSock
  by_cases h0 : data = []
  · subst h0; simp [tick]
  · rw [if_neg h0, hw]
    simp [hc]

@[simp] theorem readSock_output (n : Nat) : (l.readSock n).2.output = l.output := by
  unfold readSock
  split
  · rfl
  · split
    · rfl
    · split <;> rfl

@[simp] theorem closeSocket_output (await : Bool) : (l.closeSocket await).output = l.output := by
  unfold closeSocket
  split <;> rfl

/-- A read of at least one byte finds enough, or fails and leaves the output alone. -/
theorem readSock_cases {n : Nat} (hn : 0 < n) :
    (l.closed = false ∧ l.oracle.read l.calls = false ∧ n ≤ l.input.length ∧
      l.readSock n = (some (l.input.take n), { l.tick with input := l.input.drop n })) ∨
    ∃ l', l.readSock n = (none, l') ∧ l'.output = l.output := by
  by_cases hfail : l.closed ∨ l.oracle.read l.calls
  · refine .inr ⟨l.tick, ?_, rfl⟩
    rw [readSock, if_neg hn.ne', if_pos hfail]
  · by_cases hlen : l.input.length < n
    · refine .inr ⟨{ l.tick with input := [] }, ?_, rfl⟩
      rw [readSock, if_neg hn.ne', if_neg hfail, if_pos hlen]
    · simp only [not_or, Bool.not_eq_true] at hfail
      exact .inl ⟨hfail.1, hfail.2, not_lt.mp hlen, l.readSock_ok hfail.1 hfail.2 (not_lt.mp hlen)⟩

/-- A write of one byte goes through, or fails and leaves the output alone. -/
theorem writeSock_byte_cases (b : UInt8) :
    (l.closed = false ∧ l.oracle.write l.calls = none ∧
      l.writeSock [b] = (true, { l.tick with output := l.output ++ [b] })) ∨
    ∃ l', l.writeSock [b] = (false, l') ∧ l'.output = l.output := by
  cases hc : l.closed with
  | true => exact .inr ⟨l.tick, by simp [writeSock, hc], rfl⟩
  | false =>
    cases hw : l.oracle.write l.calls with
    | none => exact .inl ⟨rfl, rfl, l.writeSock_ok hc hw⟩
    | some k => exact .inr ⟨_, by simp [writeSock, hc, hw]; rfl, by simp⟩

/-- Reading one byte fails or takes the first byte that is left. -/
theorem readSock_byte : (∃ l', l.readSock 1 = (none, l')) ∨
    ∃ b l', l.input = b :: l'.input ∧ l'.output = l.output ∧ l.readSock 1 = (some [b], l') := by
  rcases l.readSock_cases (n := 1) Nat.one_pos with ⟨-, -, hlen, hread⟩ | ⟨l', hread, -⟩
  · cases hin : l.input with
    | nil => rw [hin] at hlen; cases hlen
    | cons b rest =>
      rw [hin] at hread
      exact .inr ⟨b, { l.tick with input := rest }, rfl, rfl, hread⟩
  · exact .inl ⟨l', hread⟩

/-- Writing one byte fails or sends it, and leaves what the client sent. -/
theorem writeSock_byte (b : UInt8) : (∃ l', l.writeSock [b] = (false, l')) ∨
    ∃ l', l'.input = l.input ∧ l'.output = l.output ++ [b] ∧ l.writeSock [b] = (true, l') := by
  rcases l.writeSock_byte_cases b with ⟨-, -, hw⟩ | ⟨l', hw, -⟩
  · exact .inr ⟨{ l.tick with output := l.output ++ [b] }, rfl, rfl, hw⟩
  · exact .inl ⟨l', hw⟩

end Session

end ClipShare
