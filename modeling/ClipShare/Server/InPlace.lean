import ClipShare.Posix.Memory
import ClipShare.Server.Buffers

namespace ClipShare

open Interaction Posix

/-!
# Strings that are changed in place

Functions that work on one block of memory, load by load and store by store.  The string begins at
position 0 of the block, where the function is not given its position.  `fuel` bounds the rounds of
each loop.

* `convertToLfInPlace` — `_convert_to_lf`;
* `reallocForCrlf`, `convertToCrlfInPlace`, `convertEolWindows` — `convert_eol` of the Windows
  build;
* `searchTargets`, `copiedTypeOfTargets` — the three searches of `get_copied_type`;
* `urlDecodeInPlace` — `url_decode`;
* `isValidFnameInPlace` — `_is_valid_fname`;
* `trimInPlace`, `parseLineInPlace` — `trim` and `parse_line`.
-/

/-! ### Line endings -/

/-- `c != '\r' || *old_ptr != '\n'`: the second half is only evaluated for a CR. -/
def keepsByte (c : UInt8) (oldPtr : Nat) : MemProg Bool :=
  if c ≠ 0x0d then return true
  else do
    let next ← load oldPtr
    return next ≠ 0x0a

/-- One round of `_convert_to_lf`, with `old_ptr` and `new_ptr`; it ends with `new_ptr`. -/
def convertToLfRound (ptrs : Nat × Nat) : MemProg ((Nat × Nat) ⊕ Nat) := do
  let c ← load ptrs.1
  if c = 0 then return .inr ptrs.2
  else
    let oldPtr := ptrs.1 + 1
    if ← keepsByte c oldPtr then do
      put ptrs.2 c
      return .inl (oldPtr, ptrs.2 + 1)
    else return .inl (oldPtr, ptrs.2)

/-- `_convert_to_lf`: the new length. -/
def convertToLfInPlace (fuel : Nat) : MemProg Nat := do
  let newPtr ← Prog.loop fuel convertToLfRound (0, 0)
  put newPtr 0
  return newPtr

/-- `size_t` wraps around below 0. -/
def sizePred (i : Nat) : Nat := if i = 0 then 2 ^ 64 - 1 else i - 1

/-- `c == '\n' && (ind == 0 || str[ind - 1] != '\r')`. -/
def lacksCr (c : UInt8) (ind : Nat) : MemProg Bool :=
  if c ≠ 0x0a then return false
  else if ind = 0 then return true
  else do
    let prev ← load (ind - 1)
    return prev ≠ 0x0d

/-- One round of the loop of `_realloc_for_crlf`, with `ind` and `increase`. -/
def countLfRound (counters : Nat × Nat) : MemProg ((Nat × Nat) ⊕ (Nat × Nat)) := do
  if (← load counters.1) = 0 then return .inr counters
  else
    let c ← load counters.1
    if ← lacksCr c counters.1 then return .inl (counters.1 + 1, counters.2 + 1)
    else return .inl (counters.1 + 1, counters.2)

/-- `_realloc_for_crlf`: whether the length increases, and the length after the conversion; none
    if the block could not be had. -/
def reallocForCrlf (fuel : Nat) : MemProg (Option (Bool × Nat)) := do
  let (ind, increase) ← Prog.loop fuel countLfRound (0, 0)
  if increase = 0 then return some (false, ind)
  else
    let reqLen := ind + increase
    if reqLen ≥ 0xFFFFFFFF then return none
    else if ← resize (reqLen + 1) then return some (true, reqLen)
    else return none

/-- One round of `_convert_to_crlf`, with `cur_ind` and `new_ind`, from the end to the start. -/
def convertToCrlfRound (inds : Nat × Nat) : MemProg ((Nat × Nat) ⊕ Unit) := do
  let c ← load inds.1
  put inds.2 c
  let newInd := sizePred inds.2
  let newInd ← if ← lacksCr c inds.1 then do
      put newInd 0x0d
      pure (sizePred newInd)
    else pure newInd
  if inds.1 = 0 then return .inr ()
  else return .inl (sizePred inds.1, newInd)

/-- `_convert_to_crlf`. -/
def convertToCrlfInPlace (fuel newLen : Nat) : MemProg Unit := do
  let newInd := sizePred newLen
  put newLen 0
  let len ← strnlenFrom (newLen + 1) 0
  Prog.loop fuel convertToCrlfRound (sizePred len, newInd)

/-- `convert_eol` of the Windows build: the new length, or -1. -/
def convertEolWindows (fuel : Nat) (forceLf : Bool) : MemProg Int := do
  if !forceLf then
    match ← reallocForCrlf fuel with
    | none => return -1
    | some (false, newLen) => return newLen
    | some (true, newLen) => do
        convertToCrlfInPlace fuel newLen
        return newLen
  else return (← convertToLfInPlace fuel)

/-! ### The type of what was copied -/

/-- `!(strncmp(token, ..) && strcmp(token, ..) ..)`: the later tests are only made if the earlier
    ones fail.  A name that is compared with `strcmp` ends in its NUL. -/
def tokenMatches : List Bytes → Nat → MemProg Bool
  | [], _ => return false
  | lit :: lits, token => do
      if ← matchesAt lit token then return true else tokenMatches lits token

/-- One round of a search in the list of targets, with `copy`.  The last search does not restore
    the delimiters. -/
def searchRound (fuel endptr : Nat) (lits : List Bytes) (restore : Bool) (copy : Option Nat) :
    MemProg (Option Nat ⊕ Bool) := do
  match ← strsepAt fuel 0x0a copy with
  | (none, _) => return .inr false
  | (some token, copy) => do
      if ← tokenMatches lits token then return .inr true
      else match copy with
        | none => return .inl none
        | some p => do
            if restore ∧ p < endptr ∧ p > 0 then do
              put (p - 1) 0x0a
              return .inl (some p)
            else return .inl (some p)

/-- One search in the list of targets: was a token found? -/
def searchTargets (fuel endptr : Nat) (lits : List Bytes) (restore : Bool) : MemProg Bool :=
  Prog.loop fuel (searchRound fuel endptr lits restore) (some 0)

/-- The names that are searched for, with a NUL for those that have to be complete. -/
def fileTargets : List Bytes := [gnomeCopiedFiles]

def imageTargets : List Bytes := [ascii "image/png" ++ [0], ascii "image/jpeg" ++ [0]]

def textTargets : List Bytes :=
  [ascii "text/plain", ascii "text/html", ascii "UTF8_STRING" ++ [0], ascii "TEXT" ++ [0]]

/-- The searches of `get_copied_type` in the targets that `xclip_util` has read. -/
def copiedTypeOfTargets (fuel targetsLen : Nat) : MemProg CopiedType := do
  if ← searchTargets fuel targetsLen fileTargets true then return .file
  else if ← searchTargets fuel targetsLen imageTargets true then return .image
  else if ← searchTargets fuel targetsLen textTargets false then return .text
  else return .none

/-! ### `url_decode` -/

/-- The byte for what is at `ptr2`, and the pointer after that; none if the URL is not valid. -/
def decodeCharAt (ptr2 : Nat) : MemProg (Option (UInt8 × Nat)) := do
  if (← load ptr2) = 0x25 then
    match hex2char (← load (ptr2 + 1)) with
    | none => return none
    | some c1 =>
      match hex2char (← load (ptr2 + 2)) with
      | none => return none
      | some c2 => return some (c1 <<< 4 ||| c2, ptr2 + 3)
  else
    let c ← load ptr2
    return some (c, ptr2 + 1)

/-- One round of the loop of `url_decode`, with `ptr1` and `ptr2`; it ends with `ptr1`, or with
    none. -/
def urlDecodeRound (ptrs : Nat × Nat) : MemProg ((Nat × Nat) ⊕ Option Nat) := do
  match ← decodeCharAt ptrs.2 with
  | none => return .inr none
  | some (c, ptr2) => do
      put ptrs.1 c
      if (← load ptr2) = 0 then return .inr (some (ptrs.1 + 1))
      else return .inl (ptrs.1 + 1, ptr2)

/-- `url_decode` of the string at position `str`: the length that it reports; none if the URL is
    not valid.  `!ptr2` compares the pointer, which is never null. -/
def urlDecodeInPlace (fuel str : Nat) : MemProg (Option UInt32) := do
  if ← matchesAt fileScheme str then
    match ← Prog.loop fuel urlDecodeRound (str, str + 7) with
    | none => return none
    | some ptr1 => do
        put ptr1 0
        return some (UInt32.ofNat (ptr1 - str))
  else return none

/-! ### File names -/

/-- `u8_check` of `n` bytes: are they well-formed? -/
def u8Check (fname n : Nat) : MemProg Bool := do
  let s ← loadBytes n fname
  return validUtf8 s

/-- One round of the loop of `_is_valid_fname`, which tests for the end of the string only after a
    byte. -/
def isValidFnameRound (fname : Nat) : MemProg (Nat ⊕ Status) := do
  if (← load fname) < 32 then return .inr .failure
  else if (← load (fname + 1)) ≠ 0 then return .inl (fname + 1)
  else return .inr .success

/-- `_is_valid_fname`. -/
def isValidFnameInPlace (fuel fname nameLength : Nat) : MemProg Status := do
  if !(← u8Check fname nameLength) then return .failure
  else Prog.loop fuel isValidFnameRound fname

/-! ### Lines of the configuration file -/

/-- `0 < c && c <= ' '`, for a `char` that may be a signed type. -/
def isBlankChar (signed : Bool) (c : UInt8) : Bool :=
  0 < charValue signed c && charValue signed c ≤ 0x20

/-- One round of the first loop of `trim`, with `ptr`. -/
def skipBlankRound (signed : Bool) (ptr : Nat) : MemProg (Nat ⊕ Nat) := do
  if isBlankChar signed (← load ptr) then return .inl (ptr + 1) else return .inr ptr

/-- One round of the second loop of `trim`, with `ptr` and `p1`; it ends with `p1`. -/
def moveByteRound (ptrs : Nat × Nat) : MemProg ((Nat × Nat) ⊕ Nat) := do
  let c ← load ptrs.1
  if c = 0 then return .inr ptrs.2
  else do
    put ptrs.2 c
    return .inl (ptrs.1 + 1, ptrs.2 + 1)

/-- One round of the last loop of `trim`, with `p1`, which goes down without a bound. -/
def chopBlankRound (signed : Bool) (p1 : Nat) : MemProg (Nat ⊕ Unit) := do
  if isBlankChar signed (← load p1) then do
    put p1 0
    return .inl (sizePred p1)
  else return .inr ()

/-- `trim` of the string at position `str`. -/
def trimInPlace (signed : Bool) (fuel str : Nat) : MemProg Unit := do
  let ptr ← Prog.loop fuel (skipBlankRound signed) str
  let p1 ← Prog.loop fuel moveByteRound (ptr, str)
  put p1 0
  if (← load str) = 0 then return ()
  else Prog.loop fuel (chopBlankRound signed) (sizePred p1)

/-- The end of `parse_line`, with the trimmed key and the trimmed value. -/
def setOption (sur : Surroundings) (web : Bool) (key value : Bytes) (cfg : Config) :
    Except Stop Config :=
  if key.head? = some 0x23 then .ok cfg
  else if key.length ≤ 0 ∨ key.length ≥ lineMaxLen then
    errorExit (ascii "Error: invalid config key")
  else if value.length ≤ 0 ∨ value.length ≥ lineMaxLen then
    errorExit (ascii "Error: invalid config value")
  else match settingOf sur web key with
    | some set => set value cfg
    | none => .ok cfg

/-- `parse_line` of the string at position `line`. -/
def parseLineInPlace (sur : Surroundings) (web signed : Bool) (fuel line : Nat) (cfg : Config) :
    MemProg (Except Stop Config) := do
  match ← strchrAt fuel 0x3d line with
  | none => return .ok cfg
  | some eq => do
      put eq 0
      trimInPlace signed fuel line
      trimInPlace signed fuel (eq + 1)
      let key ← loadString fuel line
      let value ← loadString fuel (eq + 1)
      return setOption sur web key value cfg

end ClipShare
