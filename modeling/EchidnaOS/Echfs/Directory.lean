import EchidnaOS.Echfs.Disk

namespace EchidnaOS.Echfs

open EchidnaOS.Lib.ByteStore

-- SEARCH_FAILURE is `none`. The loop gives up at the latest at entry 2 * dirsize.
def searchFrom (disk : Store) (m : Mount) (name : CString) (parent : Nat) (type : UInt8) :
    Nat → Nat → Option Nat
  | 0, _ => none
  | fuel + 1, i =>
      let entry := rdEntry disk m i
      if entry.parentId = 0 then none
      else if m.dirsize * ENTRIES_PER_BLOCK % 2 ^ 64 ≤ i then none
      else if entry.parentId = parent ∧ entry.type = type ∧ entry.name = name then some i
      else searchFrom disk m name parent type fuel (i + 1)

def search (disk : Store) (m : Mount) (name : CString) (parent : Nat) (type : UInt8) : Option Nat :=
  searchFrom disk m name parent type (m.dirsize * ENTRIES_PER_BLOCK % 2 ^ 64 + 1) 0

-- The loops below run until they meet a suitable entry. Entry numbers repeat the same
-- locations after 2 ^ 56, so with that much fuel `none` is a loop that never ends.
def ENTRY_LOOP : Nat := 2 ^ 56

def freeIdFrom (disk : Store) (m : Mount) : Nat → Nat → Nat → Option Nat
  | 0, _, _ => none
  | fuel + 1, i, id =>
      let entry := rdEntry disk m i
      if entry.parentId = 0 then some id
      else if entry.type = DF_WRITE ∧ entry.payload = id then
        freeIdFrom disk m fuel (i + 1) ((entry.payload + 1) % 2 ^ 64)
      else freeIdFrom disk m fuel (i + 1) id

def getFreeId (disk : Store) (m : Mount) : Option Nat := freeIdFrom disk m ENTRY_LOOP 0 1

def findEmptyFrom (disk : Store) (m : Mount) : Nat → Nat → Option Nat
  | 0, _ => none
  | fuel + 1, i =>
      let findentry := rdEntry disk m i
      if findentry.parentId = 0 ∨ findentry.parentId = DELETED_ENTRY then some i
      else findEmptyFrom disk m fuel (i + 1)

def findEmpty (disk : Store) (m : Mount) : Option Nat := findEmptyFrom disk m ENTRY_LOOP 0

-- Every component fits the buffer path_resolver copies it into, `count` characters being
-- there already.
def NamesFit : Nat → CString → Prop
  | count, [] => count < FILENAME_LEN
  | count, char :: path =>
      if char = 47 then count < FILENAME_LEN ∧ NamesFit 0 path else NamesFit (count + 1) path

instance decidableNamesFit : ∀ (count : Nat) (path : CString), Decidable (NamesFit count path)
  | count, [] => inferInstanceAs (Decidable (count < FILENAME_LEN))
  | count, char :: path =>
      have := decidableNamesFit 0 path
      have := decidableNamesFit (count + 1) path
      inferInstanceAs (Decidable
        (if char = 47 then count < FILENAME_LEN ∧ NamesFit 0 path else NamesFit (count + 1) path))

def skipSlash (path : CString) : CString := if path.head? = some 47 then path.tail else path

-- The paths that fit the fixed buffers of the driver: a C string of less than the 1024 bytes
-- of a handle's path, with components of less than FILENAME_LEN. The calls without a handle take
-- longer ones too.
structure Path where
  text : CString
  ends : ∀ char ∈ text, char ≠ 0
  length_lt : text.length < 1024
  names : NamesFit 0 (skipSlash text)
  deriving DecidableEq

structure PathResult where
  targetEntry : Nat := 0
  target : Entry := {}
  parent : Entry := {}
  name : CString := []
  failure : Bool := false
  notFound : Bool := false
  deriving DecidableEq, Repr

def resolveLast (disk : Store) (m : Mount) (type : UInt8) (parent : Entry) (name : CString) :
    PathResult :=
  match search disk m name parent.payload type with
  | none => { parent := parent, name := name, notFound := true }
  | some i => { targetEntry := i, target := rdEntry disk m i, parent := parent, name := name }

-- The scan of path_resolver, with the name read so far.
def resolveFrom (disk : Store) (m : Mount) (type : UInt8) : Entry → CString → CString → PathResult
  | parent, name, [] => resolveLast disk m type parent name
  | parent, name, char :: path =>
      if char = 47 then
        match search disk m name parent.payload DIRECTORY_TYPE with
        | none => { failure := true }
        | some i => resolveFrom disk m type (rdEntry disk m i) [] path
      else resolveFrom disk m type parent (name ++ [char]) path

def pathResolver (disk : Store) (m : Mount) (path : Path) (type : UInt8) : PathResult :=
  if type = DIRECTORY_TYPE ∧ path.text = [47] then { target := { payload := ROOT_ID } }
  else if type = FILE_TYPE ∧ path.text = [47] then { failure := true }
  else resolveFrom disk m type { payload := ROOT_ID } [] (skipSlash path.text)

-- The entry echfs_mkdir and echfs_create write, and where.
def addEntry (disk : Store) (m : Mount) (result : PathResult) (type : UInt8) (payload : Nat) :
    Option Store :=
  (findEmpty disk m).map fun i => wrEntry disk m i
    { parentId := result.parent.payload, type := type, name := result.name, payload := payload }

def echfsMkdir (disk : Store) (m : Mount) (path : Path) : Option Store :=
  (getFreeId disk m).bind fun id =>
    addEntry disk m (pathResolver disk m path DIRECTORY_TYPE) DIRECTORY_TYPE id

-- The outer `none` is a call that never returns, the inner one is FAILURE.
def echfsCreate (disk : Store) (m : Mount) (path : Path) : Option (Option Store) :=
  let result := pathResolver disk m path FILE_TYPE
  if result.failure then some none
  else (addEntry disk m result FILE_TYPE END_OF_CHAIN).map some

def fatLoc (m : Mount) (block : Nat) : Nat :=
  (m.fatstart * BYTES_PER_BLOCK + block * 8) % 2 ^ 64

-- The loop of echfs_remove over the allocation chain; it cannot end when it has not met
-- END_OF_CHAIN after 2 ^ 61 blocks, as each one it passes is zeroed.
def freeChain (m : Mount) : Nat → Store → Nat → Option Store
  | 0, _, _ => none
  | fuel + 1, disk, block =>
      if block = END_OF_CHAIN then some disk
      else freeChain m fuel (wrQword disk (fatLoc m block) 0) (rdQword disk (fatLoc m block))

def deletedEntry : Entry := { parentId := DELETED_ENTRY }

-- echfs_remove from where the path is resolved.
def removeResolved (disk : Store) (m : Mount) (result : PathResult) : Option (Option Store) :=
  if result.notFound then some none
  else
    (freeChain m (2 ^ 61 + 1) disk result.target.payload).map fun disk =>
      some (wrEntry disk m result.targetEntry deletedEntry)

end EchidnaOS.Echfs
