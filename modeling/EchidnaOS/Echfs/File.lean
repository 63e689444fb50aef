import EchidnaOS.Echfs.Directory

namespace EchidnaOS.Echfs

open EchidnaOS.Lib.ByteStore

def FAILURE : Int := -2
def EOF : Int := -1
def SUCCESS : Int := 0

inductive CacheStatus where
  | notReady
  | ready
  | dirty
  deriving DecidableEq, Repr

-- `cached_file_t`; `cache` is the array of BYTES_PER_BLOCK bytes, and `allocMap` ends with
-- END_OF_CHAIN.
structure CachedFile where
  path : Path
  pathResult : PathResult
  cachedBlock : Nat := 0
  cache : Store := fun _ => 0
  cacheStatus : CacheStatus := .notReady
  allocMap : List Nat

def CachedFile.block (file : CachedFile) (index : Nat) : Nat := file.allocMap.getD index 0

def CachedFile.setTarget (file : CachedFile) (target : Entry) : CachedFile :=
  { file with pathResult := { file.pathResult with target := target } }

def CachedFile.put (file : CachedFile) (offset : Nat) (val : UInt8) : CachedFile :=
  { file with cache := Function.update file.cache offset val, cacheStatus := .dirty }

-- The path calls reach the device byte by byte, the handle calls through a device handle.
-- Both run the same code over one of these.
structure Access (σ : Type) where
  rdQword : σ → Nat → Nat × σ
  wrQword : σ → Nat → Nat → σ
  zeroBlock : σ → Nat → σ
  rdBlock : σ → Nat → Store × σ
  wrBlock : σ → Nat → Store → σ
  wrTarget : σ → PathResult → σ

def storeAccess (wrTarget : Store → PathResult → Store) : Access Store where
  rdQword disk loc := (rdQword disk loc, disk)
  wrQword disk loc x := wrQword disk loc x
  zeroBlock disk loc := blit disk loc BYTES_PER_BLOCK fun _ => 0
  rdBlock disk loc := (fun offset => disk (loc + offset), disk)
  wrBlock disk loc cache := blit disk loc BYTES_PER_BLOCK cache
  wrTarget := wrTarget

def wrTargetEntry (m : Mount) (disk : Store) (result : PathResult) : Store :=
  wrEntry disk m result.targetEntry result.target

abbrev byteAccess (m : Mount) : Access Store := storeAccess (wrTargetEntry m)

def blockLoc (block : Nat) : Nat := block * BYTES_PER_BLOCK % 2 ^ 64

def blockCount (size : Nat) : Nat :=
  size / BYTES_PER_BLOCK + if size % BYTES_PER_BLOCK = 0 then 0 else 1

variable {σ : Type}

-- Write a dirty cache back, then load the block.
def fetch (io : Access σ) (dev : σ) (file : CachedFile) (block : Nat) (status : CacheStatus) :
    σ × CachedFile :=
  let dev :=
    if file.cacheStatus = .dirty then
      io.wrBlock dev (blockLoc (file.block file.cachedBlock)) file.cache
    else dev
  let loaded := io.rdBlock dev (blockLoc (file.block block))
  (loaded.2, { file with cacheStatus := status, cachedBlock := block, cache := loaded.1 })

def cached (file : CachedFile) (block : Nat) : Bool :=
  file.cacheStatus ≠ .notReady ∧ file.cachedBlock = block

def readByte (io : Access σ) (dev : σ) (file : CachedFile) (loc : Nat) : UInt8 × σ × CachedFile :=
  let block := loc / BYTES_PER_BLOCK
  let offset := loc % BYTES_PER_BLOCK
  if cached file block then (file.cache offset, dev, file)
  else
    let fetched := fetch io dev file block .ready
    (fetched.2.cache offset, fetched.1, fetched.2)

-- The search for a zero entry of the allocation table. The locations repeat after 2 ^ 61
-- entries, so with that fuel `none` is a search that never ends.
def freeBlockFrom (io : Access σ) (m : Mount) : Nat → σ → Nat → Option (Nat × σ)
  | 0, _, _ => none
  | fuel + 1, dev, tBlock =>
      let entry := io.rdQword dev (fatLoc m tBlock)
      if entry.1 = 0 then some (tBlock, entry.2) else freeBlockFrom io m fuel entry.2 (tBlock + 1)

def FAT_LOOP : Nat := 2 ^ 61 + 1

-- A new block is linked from the entry of the file if it is the first one, else from the
-- block before it.
def link (io : Access σ) (m : Mount) (dev : σ) (file : CachedFile) (i tBlock : Nat) :
    σ × CachedFile :=
  if i = 0 then
    let file := file.setTarget { file.pathResult.target with payload := tBlock }
    (io.wrTarget dev file.pathResult, file)
  else (io.wrQword dev (fatLoc m (file.block (i - 1))) tBlock, file)

-- One turn of the loop that adds blocks: block `i` of the file becomes the first free one.
def growBlock (io : Access σ) (m : Mount) (dev : σ) (file : CachedFile) (i : Nat) :
    Option (σ × CachedFile) :=
  (freeBlockFrom io m FAT_LOOP dev 0).map fun found =>
    link io m found.2 { file with allocMap := file.allocMap.take i ++ [found.1] } i found.1

def growBlocks (io : Access σ) (m : Mount) : Nat → σ → CachedFile → Nat → Option (σ × CachedFile)
  | 0, dev, file, _ => some (dev, file)
  | count + 1, dev, file, i =>
      (growBlock io m dev file i).bind fun grown => growBlocks io m count grown.1 grown.2 (i + 1)

-- The growth of a file from `old` to `new` blocks.
def grow (io : Access σ) (m : Mount) (dev : σ) (file : CachedFile) (old new : Nat) :
    Option (σ × CachedFile) :=
  (growBlocks io m (new - old) dev file old).map fun grown =>
    let dev := io.wrQword grown.1 (fatLoc m (grown.2.block (new - 1))) END_OF_CHAIN
    let file := { grown.2 with allocMap := grown.2.allocMap.take new ++ [END_OF_CHAIN] }
    let added := (file.allocMap.drop old).takeWhile fun block => block ≠ END_OF_CHAIN
    (added.foldl (fun dev block => io.zeroBlock dev (blockLoc block)) dev, file)

def putByte (io : Access σ) (dev : σ) (file : CachedFile) (val : UInt8) (loc : Nat) :
    σ × CachedFile :=
  let block := loc / BYTES_PER_BLOCK
  let offset := loc % BYTES_PER_BLOCK
  let fetched := if cached file block then (dev, file) else fetch io dev file block .dirty
  (fetched.1, fetched.2.put offset val)

-- Writing past the end sets the size.
def extend (io : Access σ) (dev : σ) (file : CachedFile) (loc : Nat) : σ × CachedFile :=
  if file.pathResult.target.size ≤ loc then
    let file := file.setTarget { file.pathResult.target with size := (loc + 1) % 2 ^ 64 }
    (io.wrTarget dev file.pathResult, file)
  else (dev, file)

def writeByte (io : Access σ) (m : Mount) (dev : σ) (file : CachedFile) (val : UInt8) (loc : Nat) :
    Option (σ × CachedFile) :=
  let old := blockCount file.pathResult.target.size
  let new := blockCount ((loc + 1) % 2 ^ 64)
  let extended := extend io dev file loc
  (if old < new then grow io m extended.1 extended.2 old new else some extended).map fun grown =>
    putByte io grown.1 grown.2 val loc

-- The driver's state for one mounted image.
structure Volume where
  disk : Store
  cachedFiles : List CachedFile := []

-- The loop that copies a chain; it has met every block number after 2 ^ 64 turns.
def allocMapFrom (disk : Store) (m : Mount) : Nat → Nat → Option (List Nat)
  | 0, _ => none
  | fuel + 1, block =>
      if block = END_OF_CHAIN then some [END_OF_CHAIN]
      else (allocMapFrom disk m fuel (rdQword disk (fatLoc m block))).map (block :: ·)

def CHAIN_LOOP : Nat := 2 ^ 64 + 1

-- A new slot comes from zeroed memory.
def newCachedFile (disk : Store) (m : Mount) (path : Path) : Option CachedFile :=
  let pathResult := pathResolver disk m path FILE_TYPE
  (allocMapFrom disk m CHAIN_LOOP pathResult.target.payload).map fun allocMap =>
    { path := path, pathResult := pathResult, allocMap := allocMap }

def findCached (files : List CachedFile) (path : Path) : Option Nat :=
  files.findIdx? fun file => file.path = path

-- The slot of the file, which is added after the others if there is none.
def cacheFile (v : Volume) (m : Mount) (path : Path) : Option (Nat × CachedFile × Volume) :=
  match findCached v.cachedFiles path with
  | some index => v.cachedFiles[index]?.map fun file => (index, file, v)
  | none =>
      (newCachedFile v.disk m path).map fun file =>
        (v.cachedFiles.length, file, { v with cachedFiles := v.cachedFiles ++ [file] })

def Volume.update (v : Volume) (index : Nat) (next : Store × CachedFile) : Volume where
  disk := next.1
  cachedFiles := v.cachedFiles.set index next.2

-- `none` is a call that never returns.
def echfsRead (v : Volume) (m : Mount) (path : Path) (loc : Nat) : Option (Int × Volume) :=
  (cacheFile v m path).map fun (index, file, v) =>
    if file.pathResult.notFound then (FAILURE, v)
    else if file.pathResult.target.size ≤ loc then (EOF, v)
    else
      let result := readByte (byteAccess m) v.disk file loc
      (result.1.toNat, v.update index result.2)

def echfsWrite (v : Volume) (m : Mount) (path : Path) (val : UInt8) (loc : Nat) :
    Option (Int × Volume) :=
  (cacheFile v m path).bind fun (index, file, v) =>
    if file.pathResult.notFound then some (FAILURE, v)
    else
      (writeByte (byteAccess m) m v.disk file val loc).map fun next => (SUCCESS, v.update index next)

end EchidnaOS.Echfs
