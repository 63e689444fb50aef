import EchidnaOS.Echfs.Handle

namespace EchidnaOS.Echfs

open EchidnaOS.Lib.ByteStore EchidnaOS.Devfs

-- A handle of the driver, which designates its cached file by the path.
structure FileHandle where
  path : Path
  flags : Nat
  ptr : Int
  begin : Int
  finish : Int
  dev : DevfsHandle

-- The driver of one mounted image, with its table of cached files as a list.
structure Driver where
  volume : Volume
  handles : List FileHandle := []

inductive FileCall where
  | create (path : Path)
  | uwrite (handle : Nat) (data : List UInt8)
  | remove (path : Path)

-- The cached file of a path.
def Volume.record (v : Volume) (path : Path) : Option CachedFile :=
  v.cachedFiles.find? fun file => file.path = path

-- The result echfs_remove goes by: the cached one, if there is one.
def Volume.removal (v : Volume) (m : Mount) (path : Path) : PathResult :=
  match v.record path with
  | some file => file.pathResult
  | none => pathResolver v.disk m path FILE_TYPE

-- The cached file is taken out of the list. `none` is a call that never returns.
def echfsRemove (v : Volume) (m : Mount) (path : Path) : Option (Int × Volume) :=
  let rest := v.cachedFiles.eraseP fun file => file.path = path
  (removeResolved v.disk m (v.removal m path)).map fun
    | none => (FAILURE, { v with cachedFiles := rest })
    | some disk => (SUCCESS, { disk := disk, cachedFiles := rest })

def FileHandle.openFile (entry : FileHandle) (disk : Store) (file : CachedFile) : OpenFile where
  dev := { disk := disk, handle := entry.dev }
  file := file
  flags := entry.flags
  ptr := entry.ptr
  begin := entry.begin
  finish := entry.finish

-- The handle after a transfer.
def FileHandle.after (entry : FileHandle) (h : OpenFile) : FileHandle :=
  { entry with ptr := h.ptr, dev := h.dev.handle }

def Driver.uwrite (s : Driver) (m : Mount) (handle : Nat) (data : List UInt8) : Option Driver :=
  s.handles[handle]?.bind fun entry =>
    (findCached s.volume.cachedFiles entry.path).bind fun slot =>
      s.volume.cachedFiles[slot]?.bind fun file =>
        (echfsUwrite m (entry.openFile s.volume.disk file) data).map fun result =>
          { volume := s.volume.update slot (result.2.dev.disk, result.2.file)
            handles := s.handles.set handle (entry.after result.2) }

def Driver.step (m : Mount) (s : Driver) : FileCall → Option Driver
  | .create path =>
      (echfsCreate s.volume.disk m path).map fun created =>
        { s with volume := { s.volume with disk := created.getD s.volume.disk } }
  | .uwrite handle data => s.uwrite m handle data
  | .remove path => (echfsRemove s.volume m path).map fun result => { s with volume := result.2 }

end EchidnaOS.Echfs
