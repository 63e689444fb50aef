import EchidnaOS.Devfs.Transfer
import EchidnaOS.Vfs.AbsolutePath
import EchidnaOS.Vfs.TranslateMnt

namespace EchidnaOS.Vfs.StreamDevices

open EchidnaOS.Lib.ByteStore EchidnaOS.Devfs

def bytes (text : String) : CString := text.toList.map Char.toUInt8

def numbered (base : String) (index : Nat) : CString := bytes base ++ bytes (toString index)

-- A device of the list: its wrapper with the general purpose value.
inductive Driver where
  | e9
  | stdin
  | stdout
  | stderr
  | null
  | zero
  | tty (index : Nat)
  | bd (index : Nat)
  | partition (disk index : Nat)
  | com (index : Nat)
  | stty (index : Nat)
  | pcspkr
  | vdev (index : Nat)
  deriving DecidableEq

-- The name that each is added with. The last character of a partition's is `i + '0'`, a byte.
def Driver.name : Driver → CString
  | .e9 => bytes "e9"
  | .stdin => bytes "stdin"
  | .stdout => bytes "stdout"
  | .stderr => bytes "stderr"
  | .null => bytes "null"
  | .zero => bytes "zero"
  | .tty index => numbered "tty" index
  | .bd index => numbered "bd" index
  | .partition disk index =>
      (numbered "bd" disk ++ bytes "p" ++ [UInt8.ofNat (index + 48)]).takeWhile (· ≠ 0)
  | .com index => numbered "com" index
  | .stty index => numbered "stty" index
  | .pcspkr => bytes "pcspkr"
  | .vdev index => numbered "vdev" index

inductive Filesystem where
  | devfs
  | echfs

def filesystems : List (CString × Filesystem) :=
  [(bytes "devfs", .devfs), (bytes "echfs", .echfs)]

-- `mountpoint_t`
structure MountEntry where
  mountpoint : CString
  device : CString
  filesystem : CString

-- kernel_init mounts these two, and nothing else calls vfs_mount.
def mountpoints : List MountEntry :=
  [⟨bytes "/", bytes ":://bd0p0", bytes "echfs"⟩, ⟨bytes "/dev", bytes "devfs", bytes "devfs"⟩]

def vfsTranslateFs (mount : MountEntry) : Option Filesystem :=
  (filesystems.find? fun filesystem => filesystem.1 = mount.filesystem).map (·.2)

-- The devices, and the strings of the current task.
structure System where
  drivers : List Driver
  pwd : CString
  stdin : CString
  stdout : CString
  stderr : CString

-- A device, or a file system on a device.
inductive Place where
  | device (driver : Driver)
  | volume (device : CString)

def namedDriver (s : System) (name : CString) : Option Driver :=
  s.drivers.find? fun driver => name = driver.name

-- What vfs_kread and vfs_kwrite do with an absolute path, up to devfs_read and devfs_write.
def translate (s : System) (path : CString) : Option Place :=
  let guess := vfsTranslateMnt (mountpoints.map MountEntry.mountpoint) path
  if guess.1 = TRANSLATE_FAILURE then none
  else
    mountpoints[guess.1.toNat]?.bind fun mount =>
      (vfsTranslateFs mount).bind fun
        | .devfs =>
            let name := if guess.2.head? = some 47 then guess.2.tail else guess.2
            (namedDriver s name).map .device
        | .echfs => some (.volume mount.device)

-- Where a path leads; the buffer of the absolute path is not cleared.
def leadsTo (s : System) (buffer : Store) (path : CString) : Option Place :=
  if path.take 4 = bytes ":://" then (namedDriver s (path.drop 4)).map .device
  else (vfsGetAbsolutePath s.pwd path buffer).bind fun absolute => translate s (string absolute)

-- The functions of the recursion: vfs_kread or vfs_kwrite of a path, and the wrapper of a device.
inductive Call where
  | vfs (type : IoType) (path : CString)
  | ioWrapper (driver : Driver) (type : IoType)

abbrev Call.vfsKread (path : CString) : Call := .vfs .read path
abbrev Call.vfsKwrite (path : CString) : Call := .vfs .write path

-- The calls that a wrapper makes. The read of a serial tty echoes, and its case falls through to
-- the write; a partition reads and writes its disk through a handle of devfs.
def wrapperCalls (s : System) : Driver → IoType → List Call
  | .stdin, .read => [.vfsKread s.stdin]
  | .stdout, .write => [.vfsKwrite s.stdout]
  | .stderr, .write => [.vfsKwrite s.stderr]
  | .stty index, .read =>
      [.vfsKread (numbered ":://com" index), .vfsKwrite (numbered ":://com" index)]
  | .stty index, .write => [.vfsKwrite (numbered ":://com" index)]
  | .partition disk _, _ => [.ioWrapper (.bd disk) .read, .ioWrapper (.bd disk) .write]
  | _, _ => []

-- echfs reads and writes its volume by path, whichever way it is called.
def Place.calls (type : IoType) : Place → List Call
  | .device driver => [.ioWrapper driver type]
  | .volume dev => [.vfsKread dev, .vfsKwrite dev]

-- One call makes another, for some content of the stack.
def Calls (s : System) : Call → Call → Prop
  | .vfs type path, next =>
      ∃ buffer place, leadsTo s buffer path = some place ∧ next ∈ place.calls type
  | .ioWrapper driver type, next => next ∈ wrapperCalls s driver type

-- The recursion below a call ends, whatever it finds on the stack.
def Returns (s : System) (call : Call) : Prop := Acc (fun next call => Calls s call next) call

def Names (s : System) (path : CString) (driver : Driver) : Prop :=
  ∃ buffer, leadsTo s buffer path = some (.device driver)

-- A read of the stdin device and a write to the stdout and stderr devices, by any spelling.
structure StreamsReturn (s : System) : Prop where
  stdin : ∀ path, Names s path .stdin → Returns s (.vfsKread path)
  stdout : ∀ path, Names s path .stdout → Returns s (.vfsKwrite path)
  stderr : ∀ path, Names s path .stderr → Returns s (.vfsKwrite path)

-- No string leads back to its own device, and stdout and stderr do not lead to each other.
structure NoCircle (s : System) : Prop where
  stdin : ¬ Names s s.stdin .stdin
  stdout : ¬ Names s s.stdout .stdout
  stderr : ¬ Names s s.stderr .stderr
  crossed : ¬ (Names s s.stdout .stderr ∧ Names s s.stderr .stdout)

end EchidnaOS.Vfs.StreamDevices
