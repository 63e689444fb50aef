import EchidnaOS.Lib.ByteStore

namespace EchidnaOS.Shell

open EchidnaOS.Lib.ByteStore

-- `char input[256]`. No loop over a line makes more rounds than the line has bytes.
def INPUT_SIZE : Nat := 256

inductive NodeType where
  | file
  | device

def isSpace (c : UInt8) : Bool := c == ' '.toUInt8

def inWord (c : UInt8) : Bool := c != ' '.toUInt8 && c != 0

-- `!strncmp(&string[index], op, 2)` for an operator of two characters.
def startsTwo (string : Store) (index : Nat) (first second : Char) : Bool :=
  string index == first.toUInt8 && string (index + 1) == second.toUInt8

-- `while (p(string[index])) index++`.
def advance (p : UInt8 → Bool) (string : Store) : Nat → Nat → Option Nat
  | 0, _ => none
  | fuel + 1, index => if p (string index) then advance p string fuel (index + 1) else some index

-- A redirection's target in `get_argc`.
def skipTarget (string : Store) (index : Nat) : Option Nat := do
  let index ← advance isSpace string INPUT_SIZE index
  advance inWord string INPUT_SIZE index

-- The loop of `get_argc`. Beside the count it returns the runs that were counted, each with its
-- first index and the one behind it.
def argcLoop (string : Store) : Nat → Nat → Nat → List (Nat × Nat) →
    Option (Nat × List (Nat × Nat))
  | 0, _, _, _ => none
  | fuel + 1, index, argc, runs =>
    if string index = 0 then some (argc, runs)
    else if isSpace (string index) then argcLoop string fuel (index + 1) argc runs
    else if startsTwo string index '2' '>' ∨ startsTwo string index '&' '>' then do
      argcLoop string fuel (← skipTarget string (index + 2)) argc runs
    else if string index = '>'.toUInt8 ∨ string index = '<'.toUInt8 then do
      argcLoop string fuel (← skipTarget string (index + 1)) argc runs
    else if string index = '&'.toUInt8 then argcLoop string fuel (index + 1) argc runs
    else do
      let stop ← advance inWord string INPUT_SIZE index
      argcLoop string fuel stop (argc + 1) (runs ++ [(index, stop)])

def getArgcRuns (string : Store) : Option (Nat × List (Nat × Nat)) :=
  argcLoop string INPUT_SIZE 0 0 []

def getArgc (string : Store) : Option Nat := (getArgcRuns string).map (·.1)

-- The addresses of the shell's buffers of 128 bytes. A longer name runs on into what lies behind.
structure Layout where
  progStdin : Nat
  progStdout : Nat
  progStderr : Nat

-- The calls that a redirection makes on the name at an address. Their results are not used.
inductive Call where
  | remove (path : Nat)
  | vfsCreate (path : Nat)
  | getMetadata (path : Nat) (type : NodeType)

-- The locals of `get_argv` with the line and the array it fills. `data` is the shell's own memory,
-- from where the line and the array are apart.
structure ArgvState where
  string : Store
  index : Nat := 0
  argv : Nat → Nat
  arg : Nat := 0
  data : Store
  noBlock : Bool
  calls : List (Call × Store) := []

-- `string[index++] = 0`.
def ArgvState.erase (st : ArgvState) : ArgvState :=
  { st with string := Function.update st.string st.index 0, index := st.index + 1 }

-- `prog[i] = c` for each of the buffers.
def ArgvState.store (st : ArgvState) (buffers : List Nat) (i : Nat) (c : UInt8) : ArgvState :=
  { st with data := buffers.foldl (fun data base => Function.update data (base + i) c) st.data }

def ArgvState.call (st : ArgvState) (calls : List Call) : ArgvState :=
  { st with calls := st.calls ++ calls.map fun call => (call, st.data) }

-- `while (string[index] == ' ') string[index++] = 0`.
def eraseSpaces : Nat → ArgvState → Option ArgvState
  | 0, _ => none
  | fuel + 1, st => if isSpace (st.string st.index) then eraseSpaces fuel st.erase else some st

-- The loop that moves a target into the buffers, with their terminator behind it.
def moveTarget (buffers : List Nat) : Nat → Nat → ArgvState → Option ArgvState
  | 0, _, _ => none
  | fuel + 1, i, st =>
    if inWord (st.string st.index) then
      moveTarget buffers fuel (i + 1) (st.store buffers i (st.string st.index)).erase
    else some (st.store buffers i 0)

-- A redirection behind its operator.
def redirect (st : ArgvState) (buffers : List Nat) (calls : List Call) : Option ArgvState := do
  let st ← eraseSpaces INPUT_SIZE st
  let st ← moveTarget buffers INPUT_SIZE 0 st
  return st.call calls

-- `OS_vfs_get_metadata` fails on both types where there is neither a file nor a device.
def probes (layout : Layout) (isFile : Bool) : List Call :=
  if isFile then [.getMetadata layout.progStdin .file]
  else [.getMetadata layout.progStdin .file, .getMetadata layout.progStdin .device]

-- `argv[arg++] = &string[index]`, for an 8-bit `arg`.
def ArgvState.push (st : ArgvState) : ArgvState :=
  { st with argv := Function.update st.argv st.arg st.index, arg := (st.arg + 1) % 2 ^ 8 }

-- The loop of `get_argv`. `isFile` is the answer to the probe of a name.
def argvLoop (layout : Layout) (isFile : Store → Bool) : Nat → ArgvState → Option ArgvState
  | 0, _ => none
  | fuel + 1, st =>
    if st.string st.index = 0 then some st
    else if isSpace (st.string st.index) then argvLoop layout isFile fuel st.erase
    else if st.string st.index = '>'.toUInt8 then do
      argvLoop layout isFile fuel (← redirect st.erase [layout.progStdout]
        [.remove layout.progStdout, .vfsCreate layout.progStdout])
    else if st.string st.index = '<'.toUInt8 then do
      let st ← redirect st.erase [layout.progStdin] []
      argvLoop layout isFile fuel (st.call (probes layout (isFile st.data)))
    else if startsTwo st.string st.index '2' '>' then do
      argvLoop layout isFile fuel (← redirect st.erase.erase [layout.progStderr]
        [.remove layout.progStderr, .vfsCreate layout.progStderr])
    else if startsTwo st.string st.index '&' '>' then do
      argvLoop layout isFile fuel (← redirect st.erase.erase [layout.progStdout, layout.progStderr]
        [.remove layout.progStdout, .remove layout.progStderr,
          .vfsCreate layout.progStdout, .vfsCreate layout.progStderr])
    else if st.string st.index = '&'.toUInt8 then
      argvLoop layout isFile fuel { st.erase with noBlock := true }
    else do
      let st := st.push
      let stop ← advance inWord st.string INPUT_SIZE st.index
      let st := { st with index := stop }
      if st.string st.index ≠ 0 then argvLoop layout isFile fuel st.erase else some st

-- `data` is the shell's memory behind the calls that fetch its own streams.
def getArgv (layout : Layout) (isFile : Store → Bool) (data : Store) (argv : Nat → Nat)
    (string : Store) : Option ArgvState :=
  argvLoop layout isFile INPUT_SIZE { string, argv, data, noBlock := false }

end EchidnaOS.Shell
