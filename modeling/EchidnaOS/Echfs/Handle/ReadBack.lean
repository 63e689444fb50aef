import EchidnaOS.Echfs.Handle.Cursor
import EchidnaOS.Echfs.Image.Write
import EchidnaOS.Lib.Run

namespace EchidnaOS.Echfs

open EchidnaOS.Lib.ByteStore EchidnaOS.Lib.Run EchidnaOS.Devfs

variable {m : Mount} {dev : DevFile} {file : CachedFile} {chain : List Nat} {p : Nat}
  {finish : Int} {h : OpenFile}

-- The bytes of a file from a position on.
def fileBytes (disk : Store) (file : CachedFile) (start count : Nat) : List UInt8 :=
  (List.range' start count).map (contents disk file)

theorem fileBytes_succ (disk : Store) (file : CachedFile) (start count : Nat) :
    fileBytes disk file start (count + 1) =
      contents disk file start :: fileBytes disk file (start + 1) count := by
  unfold fileBytes
  rw [List.range'_succ, List.map_cons]

theorem fileBytes_congr {first second : Store} {left right : CachedFile} {start count : Nat}
    (hsame : ∀ pos, start ≤ pos → pos < start + count →
      contents first left pos = contents second right pos) :
    fileBytes first left start count = fileBytes second right start count := by
  unfold fileBytes
  apply List.map_congr_left
  intro pos hmem
  obtain ⟨hlow, hhigh⟩ := List.mem_range'_1.mp hmem
  exact hsame pos hlow hhigh

theorem fileBytes_eq {disk : Store} {start : Nat} {data : List UInt8}
    (hbytes : ∀ offset, offset < data.length →
      contents disk file (start + offset) = data.getD offset 0) :
    fileBytes disk file start data.length = data := by
  induction data generalizing start with
  | nil => rfl
  | cons val rest ih =>
      rw [List.length_cons, fileBytes_succ]
      have hfirst : contents disk file start = val := hbytes 0 (by simp)
      rw [hfirst, ih]
      intro offset hoffset
      have hsum : start + 1 + offset = start + (offset + 1) := by omega
      rw [hsum]
      exact hbytes (offset + 1) (by rw [List.length_cons]; omega)

-- The outcome of a read of at most `len` bytes at `p`.
structure ReadSpec (m : Mount) (finish : Int) (len p : Nat) (dev : DevFile) (file : CachedFile)
    (chain : List Nat) (result : List UInt8 × DevFile × CachedFile × Int) : Prop where
  bytes : result.1 = fileBytes dev.disk file p (min len (finish - p).toNat)
  cursor : CursorOk m result.2.1 result.2.2.1 chain
  pathResult : result.2.2.1.pathResult = file.pathResult
  contents : ∀ pos, pos < file.size →
    Echfs.contents result.2.1.disk result.2.2.1 pos = Echfs.contents dev.disk file pos
  curLoc : result.2.2.2 = p + (min len (finish - p).toNat : Nat)

theorem ureadBytes_spec (hcursor : CursorOk m dev file chain) (hfinish : finish ≤ file.size)
    (len p : Nat) : ReadSpec m finish len p dev file chain (ureadBytes finish len dev file p) := by
  induction len generalizing dev file p with
  | zero =>
      refine ⟨?_, hcursor, rfl, fun _ _ => rfl, ?_⟩
      · rw [Nat.zero_min]
        rfl
      · rw [Nat.zero_min]
        simp [ureadBytes]
  | succ len ih =>
      unfold ureadBytes
      by_cases hend : finish ≤ p
      · have hnone : min (len + 1) (finish - p).toNat = 0 := by omega
        rw [if_pos hend]
        exact ⟨by rw [hnone]; rfl, hcursor, rfl, fun _ _ => rfl, by rw [hnone]; simp⟩
      · rw [if_neg hend, Int.toNat_natCast]
        have hinside : p < file.size := by omega
        obtain ⟨hbyte, hnext, hresult, hcontents⟩ := hcursor.readByte hinside rfl
        generalize Echfs.readByte handleAccess dev file p = first at *
        dsimp only
        have hsize : first.2.2.size = file.size := by rw [CachedFile.size, hresult]; rfl
        have hrest := ih hnext (by rw [hsize]; exact hfinish) (p + 1)
        have hcast : ((p + 1 : Nat) : Int) = (p : Int) + 1 := by omega
        rw [hcast] at hrest
        generalize ureadBytes finish len first.2.1 first.2.2 ((p : Int) + 1) = rest at *
        have hcount : min (len + 1) (finish - p).toNat =
            min len (finish - ((p + 1 : Nat) : Int)).toNat + 1 := by omega
        refine ⟨?_, hrest.cursor, hrest.pathResult.trans hresult, ?_, ?_⟩
        · show first.1 :: rest.1 = _
          rw [hcount, fileBytes_succ, hbyte, hrest.bytes]
          congr 1
          apply fileBytes_congr
          intro pos hlow hhigh
          exact hcontents pos (by omega)
        · intro pos hpos
          rw [hrest.contents pos (by rw [hsize]; exact hpos)]
          exact hcontents pos hpos
        · rw [hrest.curLoc, hcount]
          omega

-- The outcome of a write of `data` at `p`.
structure WriteSpec (m : Mount) (data : List UInt8) (p : Nat) (dev : DevFile) (file : CachedFile)
    (chain : List Nat) (result : DevFile × CachedFile × Int) : Prop where
  cursor : ∃ blocks, CursorOk m result.1 result.2.1 blocks ∧
    Frame m chain blocks (dev.disk, file) (result.1.disk, result.2.1)
  size : result.2.1.size = max file.size (p + data.length)
  bytes : ∀ pos, pos < result.2.1.size → contents result.1.disk result.2.1 pos =
    if p ≤ pos ∧ pos < p + data.length then data.getD (pos - p) 0 else contents dev.disk file pos
  curLoc : result.2.2 = p + data.length

theorem uwriteBytes_spec (hcursor : CursorOk m dev file chain) (data : List UInt8)
    (hp : p ≤ file.size)
    (hspace : blockCount (p + data.length) ≤ blockCount file.size + freeBlocks m dev.disk) :
    ∃ result, uwriteBytes m data dev file p = some result ∧
      WriteSpec m data p dev file chain result := by
  induction data generalizing dev file chain p with
  | nil =>
      refine ⟨_, rfl, ⟨chain, hcursor, Frame.refl chain _⟩, ?_, ?_, by simp⟩
      · rw [List.length_nil, Nat.add_zero, Nat.max_eq_left hp]
      · intro pos _
        rw [if_neg (by simp only [List.length_nil]; omega)]
  | cons val rest ih =>
      rw [List.length_cons] at hspace
      have hmono : blockCount (p + 1) ≤ blockCount (p + (rest.length + 1)) :=
        blockCount_mono (by omega)
      obtain ⟨first, hfirst, hwrote⟩ := hcursor.writeByte hp (by omega) val
      obtain ⟨blocks, hnext, hframe⟩ := hwrote.cursor
      have hsize := hwrote.size
      have hfree := hwrote.free
      have hsum : p + 1 + rest.length = p + (rest.length + 1) := by omega
      have hnextPos : p + 1 ≤ first.2.size := by omega
      obtain ⟨result, hresult, hspec⟩ := ih hnext hnextPos (by rw [hsum]; omega)
      obtain ⟨last, hlast, hrest⟩ := hspec.cursor
      have hall := hframe.trans (fun block hmem => (hlast.ok.data block hmem).2) hrest
      refine ⟨result, ?_, ⟨last, hlast, hall⟩, ?_, ?_, ?_⟩
      · rw [uwriteBytes, Int.toNat_natCast, hfirst, Option.bind_some]
        exact hresult
      · rw [hspec.size, hsize, List.length_cons]
        omega
      · intro pos hpos
        rw [hspec.bytes pos hpos, List.length_cons]
        by_cases heq : pos = p
        · have hinside : pos < first.2.size := by rw [hsize]; omega
          rw [if_neg (by omega), if_pos (by omega), hwrote.bytes pos hinside, if_pos heq, heq,
            Nat.sub_self]
          rfl
        · by_cases hlater : p + 1 ≤ pos ∧ pos < p + 1 + rest.length
          · obtain ⟨offset, hoffset⟩ : ∃ offset, pos - p = offset + 1 := ⟨pos - p - 1, by omega⟩
            have hprevious : pos - (p + 1) = offset := by omega
            rw [if_pos hlater, if_pos (by omega), hoffset, hprevious]
            rfl
          · have hinside : pos < first.2.size := by
              have := hspec.size
              omega
            rw [if_neg hlater, if_neg (by omega), hwrote.bytes pos hinside, if_neg heq]
      · rw [hspec.curLoc, List.length_cons]
        omega

-- Writing the directory entry at the end of echfs_uwrite.
theorem CursorOk.wrEntryU (hcursor : CursorOk m dev file chain) (entry : Entry) :
    CursorOk m (wrEntryU m dev file.pathResult.targetEntry entry) file chain ∧
      ∀ pos, pos < file.size →
        contents (Echfs.wrEntryU m dev file.pathResult.targetEntry entry).disk file pos =
          contents dev.disk file pos := by
  have hgeometry := hcursor.geometry
  obtain ⟨hstart, hend⟩ := entryLoc_end_le hgeometry hcursor.entry_lt
  have hdata := Nat.mul_le_mul_right BYTES_PER_BLOCK hgeometry.data_le
  have hholds := hcursor.device.holds
  obtain ⟨hdisk, hdevice, -⟩ := hcursor.device.wrAt
    (show entryLoc m file.pathResult.targetEntry ≤ dev.handle.finish by omega) SIZEOF_ENTRY
    (bytesAt (entryBytes entry))
  have houtside : ∀ address, address < m.dirstart * BYTES_PER_BLOCK ∨
      m.datastart * BYTES_PER_BLOCK ≤ address →
      (Echfs.wrEntryU m dev file.pathResult.targetEntry entry).disk address = dev.disk address := by
    intro address hout
    unfold Echfs.wrEntryU
    rw [hdisk]
    exact blit_outside _ _ _ _ _ (by omega)
  have hbytes : ∀ block ∈ chain, ∀ offset, offset < BYTES_PER_BLOCK →
      (Echfs.wrEntryU m dev file.pathResult.targetEntry entry).disk (blockLoc block + offset) =
        dev.disk (blockLoc block + offset) := by
    intro block hmem offset _
    have habove := (data_above_directory hgeometry (hcursor.ok.data block hmem)).1
    exact houtside _ (Or.inr (by omega))
  have hfat : ∀ block, block < m.blocks →
      fat (Echfs.wrEntryU m dev file.pathResult.targetEntry entry).disk m block =
        fat dev.disk m block :=
    fun block hlt => fat_congr hgeometry hlt fun address hlow => houtside address (Or.inl hlow)
  refine ⟨⟨hgeometry, hdevice, hcursor.ok.of_disk hbytes, hcursor.length, ?_, ?_,
    hcursor.entry_lt, hcursor.name_lt⟩, ?_⟩
  · intro block hlow
    have hle := hgeometry.data_le
    rw [hfat block (by omega)]
    exact hcursor.reserved block hlow
  · intro block hmem
    rw [hfat block (hcursor.ok.data block hmem).2]
    exact hcursor.used block hmem
  · intro pos hpos
    exact hcursor.ok.contents_of_disk hbytes (hcursor.block_lt hpos)

inductive HandleCall where
  | uread (len : Nat)
  | uwrite (data : List UInt8)
  | seek (offset : Int) (type : Whence)

def handleStep (m : Mount) (h : OpenFile) : HandleCall → Option OpenFile
  | .uread len => some (echfsUread h len).2
  | .uwrite data => (echfsUwrite m h data).map (·.2)
  | .seek offset type => some (echfsSeek h offset type).2

-- The image has the blocks a write needs.
def HasSpace (m : Mount) (h : OpenFile) : HandleCall → Prop
  | .uwrite data => blockCount (h.ptr.toNat + data.length) ≤
      blockCount h.file.size + freeBlocks m h.dev.disk
  | _ => True

-- A handle in use: it never points past the size of the file, nor does its end.
structure HandleOk (m : Mount) (h : OpenFile) : Prop where
  cursor : ∃ chain, CursorOk m h.dev h.file chain
  begin_pos : 0 ≤ h.begin
  begin_eq : h.flags &&& O_APPEND = 0 → h.begin = 0
  begin_le : h.begin ≤ h.ptr
  ptr_le : h.ptr ≤ h.file.size
  finish_le : h.finish ≤ h.file.size

theorem HandleOk.uread (hhandle : HandleOk m h) (len : Nat) :
    (echfsUread h len).1 = fileBytes h.dev.disk h.file h.ptr.toNat
        (min len (h.finish - h.ptr).toNat) ∧
      HandleOk m (echfsUread h len).2 ∧
      (echfsUread h len).2.ptr = h.ptr + (min len (h.finish - h.ptr).toNat : Nat) := by
  obtain ⟨chain, hcursor⟩ := hhandle.cursor
  have hbegin := hhandle.begin_pos
  have hle := hhandle.begin_le
  have hptrLe := hhandle.ptr_le
  have hfinish := hhandle.finish_le
  have hptr : ((h.ptr.toNat : Nat) : Int) = h.ptr := by omega
  have hspec := ureadBytes_spec hcursor hfinish len h.ptr.toNat
  rw [hptr] at hspec
  unfold echfsUread
  generalize ureadBytes h.finish len h.dev h.file h.ptr = result at *
  have hbytes := hspec.bytes
  have hcurLoc := hspec.curLoc
  have hsize : result.2.2.1.size = h.file.size := by
    rw [CachedFile.size, hspec.pathResult]
    rfl
  rw [hptr] at hbytes hcurLoc
  refine ⟨hbytes, ⟨⟨chain, hspec.cursor⟩, hbegin, hhandle.begin_eq, ?_, ?_, ?_⟩, hcurLoc⟩
  · show h.begin ≤ result.2.2.2
    omega
  · show result.2.2.2 ≤ result.2.2.1.size
    omega
  · show h.finish ≤ result.2.2.1.size
    omega

theorem HandleOk.seek (hhandle : HandleOk m h) (offset : Int) (type : Whence) :
    HandleOk m (echfsSeek h offset type).2 := by
  have hseekTo : ∀ target, HandleOk m (h.seekTo target).2 := by
    intro target
    unfold OpenFile.seekTo
    by_cases hout : h.finish < target ∨ target < h.begin
    · rw [if_pos hout]
      exact hhandle
    · rw [if_neg hout]
      have hfinish := hhandle.finish_le
      refine ⟨hhandle.cursor, hhandle.begin_pos, hhandle.begin_eq, ?_, ?_, hfinish⟩
      · show h.begin ≤ target
        omega
      · show target ≤ h.file.size
        omega
  unfold echfsSeek
  cases type with
  | set => exact hseekTo _
  | finish => exact hseekTo _
  | cur => exact hseekTo _
  | other => exact hhandle

-- echfs_uwrite with enough free blocks returns and stores every byte.
structure UwriteSpec (m : Mount) (h : OpenFile) (data : List UInt8) (next : OpenFile) : Prop where
  handle : HandleOk m next
  ptr : next.ptr = h.ptr + data.length
  finish : next.finish = h.finish
  begin : next.begin = h.begin
  size : h.file.size ≤ next.file.size
  bytes : ∀ pos, pos < next.file.size → contents next.dev.disk next.file pos =
    if h.ptr.toNat ≤ pos ∧ pos < h.ptr.toNat + data.length then data.getD (pos - h.ptr.toNat) 0
    else contents h.dev.disk h.file pos

theorem HandleOk.uwrite (hhandle : HandleOk m h) {data : List UInt8}
    (hspace : HasSpace m h (.uwrite data)) :
    ∃ next, echfsUwrite m h data = some (data.length, next) ∧ UwriteSpec m h data next := by
  obtain ⟨chain, hcursor⟩ := hhandle.cursor
  have hbegin := hhandle.begin_pos
  have hle := hhandle.begin_le
  have hptrLe := hhandle.ptr_le
  have hfinish := hhandle.finish_le
  have hptr : ((h.ptr.toNat : Nat) : Int) = h.ptr := by omega
  obtain ⟨result, hresult, hspec⟩ :=
    uwriteBytes_spec hcursor data (show h.ptr.toNat ≤ h.file.size by omega) hspace
  rw [hptr] at hresult
  obtain ⟨blocks, hnext, -⟩ := hspec.cursor
  obtain ⟨hlast, hlastBytes⟩ := hnext.wrEntryU result.2.1.pathResult.target
  have hsize := hspec.size
  have hcurLoc := hspec.curLoc
  rw [hptr] at hcurLoc
  unfold echfsUwrite
  rw [hresult, Option.map_some]
  refine ⟨_, rfl, ⟨⟨blocks, hlast⟩, hbegin, hhandle.begin_eq, ?_, ?_, ?_⟩, hcurLoc, rfl, rfl, ?_, ?_⟩
  · show h.begin ≤ result.2.2
    omega
  · show result.2.2 ≤ result.2.1.size
    omega
  · show h.finish ≤ result.2.1.size
    omega
  · show h.file.size ≤ result.2.1.size
    omega
  · intro pos hpos
    rw [hlastBytes pos hpos, hspec.bytes pos hpos]

theorem HandleOk.step (hhandle : HandleOk m h) {call : HandleCall} {next : OpenFile}
    (hspace : HasSpace m h call) (hstep : handleStep m h call = some next) : HandleOk m next := by
  cases call with
  | uread len =>
      cases hstep
      exact (hhandle.uread len).2.1
  | uwrite data =>
      obtain ⟨after, hafter, hspec⟩ := hhandle.uwrite hspace
      rw [handleStep, hafter] at hstep
      cases hstep
      exact hspec.handle
  | seek offset type =>
      cases hstep
      exact hhandle.seek offset type

theorem HandleOk.calls {opened : OpenFile} (hhandle : HandleOk m opened) {calls : List HandleCall}
    (hguard : Guarded (handleStep m) (HasSpace m) opened calls)
    (hrun : run (handleStep m) opened calls = some h) : HandleOk m h :=
  run_invariant (fun _ _ _ hok hspace hstep => HandleOk.step hok hspace hstep) hhandle hguard hrun

-- The handle echfs_open makes on a device that holds the image and that `int` can address.
theorem Existing.opened {v : Volume} {entries : List Entry} {chains : Nat → List Nat} {path : Path}
    {index flags devSize : Nat} (hfile : Existing m v entries chains path index)
    (hholds : m.blocks * BYTES_PER_BLOCK ≤ devSize) (hsmall : devSize < 2 ^ 31)
    (hopen : openFile v m path flags devSize = some h) : HandleOk m h := by
  have hgeometry := hfile.image.geometry
  have hindex := hfile.index_lt
  have hchain := hfile.image.files index hindex hfile.isFile
  have hfits := hfile.image.table.fits _ (List.getElem_mem hindex)
  have hroom := hfile.image.table.room
  obtain ⟨slot, file, after, hcache, hdisk, hrecord, -, -, -⟩ := hfile.cacheFile
  have hentry := hrecord.entry_eq hindex
  have htarget : (pathResolver v.disk m path FILE_TYPE).target = file.pathResult.target :=
    Option.some.inj (hfile.target_eq.symm.trans hrecord.target)
  have hblocks : 0 < m.blocks * BYTES_PER_BLOCK :=
    Nat.mul_pos (Nat.lt_of_lt_of_le hgeometry.data_pos hgeometry.data_le) (by decide)
  rw [hentry] at hfits
  unfold openFile at hopen
  rw [htarget, hcache, Option.map_some] at hopen
  have hnonzero : decide (devSize = 0) = false := decide_eq_false (by omega)
  have hcursor : CursorOk m { disk := after.disk, handle :=
      { flags := O_RDWR, finish := devSize, isblock := devSize = 0 } } file (chains index) := by
    refine ⟨hgeometry, ⟨rfl, hnonzero, rfl, hholds, hsmall⟩, ?_, ?_, ?_, ?_, ?_, hfits.name_lt⟩
    · exact hdisk ▸ hrecord.ok
    · rw [hchain.length, hentry]
      rfl
    · exact hdisk ▸ hfile.image.reserved
    · rw [hdisk]
      exact fun block hmem => hchain.fat_ne_zero hgeometry hmem
    · rw [hrecord.targetEntry]
      omega
  have hsize : toInt file.pathResult.target.size = file.size := toInt_small hcursor.size_lt
  rw [hsize] at hopen
  cases hopen
  refine ⟨⟨_, hcursor⟩, ?_, ?_, Int.le_refl _, ?_, Int.le_refl _⟩
  · show 0 ≤ if flags &&& O_APPEND = 0 then (0 : Int) else file.size
    split <;> omega
  · exact fun happend => if_pos happend
  · show (if flags &&& O_APPEND = 0 then (0 : Int) else file.size) ≤ file.size
    split <;> omega

theorem uwriteBytes_curLoc {data : List UInt8} {curLoc : Int} {result : DevFile × CachedFile × Int}
    (hresult : uwriteBytes m data dev file curLoc = some result) :
    result.2.2 = curLoc + data.length := by
  induction data generalizing dev file curLoc with
  | nil =>
      cases hresult
      simp
  | cons val rest ih =>
      obtain ⟨next, -, hrest⟩ := Option.bind_eq_some_iff.mp hresult
      rw [ih hrest, List.length_cons]
      omega

theorem echfsUwrite_ptr {data : List UInt8} {count : Nat} {next : OpenFile}
    (hnext : echfsUwrite m h data = some (count, next)) :
    next.ptr = h.ptr + data.length ∧ next.finish = h.finish := by
  obtain ⟨result, hresult, heq⟩ := Option.map_eq_some_iff.mp hnext
  rw [← (Prod.mk.inj heq).2]
  exact ⟨uwriteBytes_curLoc hresult, rfl⟩

-- Writing `data` at the current position, and what the two seeks and the read after it give.
def ReadsBack (m : Mount) (h : OpenFile) (data : List UInt8) : Prop :=
  ∃ next, echfsUwrite m h data = some (data.length, next) ∧
    (echfsSeek next 0 .cur).1 = h.ptr + data.length ∧
    (h.flags &&& O_APPEND = 0 →
      (echfsSeek (echfsSeek next 0 .cur).2 h.ptr .set).1 ≠ -1 ∧
      (echfsUread (echfsSeek (echfsSeek next 0 .cur).2 h.ptr .set).2 data.length).1 = data)

theorem HandleOk.readsBack (hhandle : HandleOk m h) {data : List UInt8}
    (hinside : h.ptr + data.length ≤ h.finish) : ReadsBack m h data := by
  have hbegin := hhandle.begin_pos
  have hbeginLe := hhandle.begin_le
  have hfinish := hhandle.finish_le
  have hspace : HasSpace m h (.uwrite data) := by
    have hmono : blockCount (h.ptr.toNat + data.length) ≤ blockCount h.file.size :=
      blockCount_mono (by omega)
    exact Nat.le_add_right_of_le hmono
  obtain ⟨next, hnext, hspec⟩ := hhandle.uwrite hspace
  have hptr := hspec.ptr
  have hnextFinish := hspec.finish
  have hnextBegin := hspec.begin
  have hsize := hspec.size
  have hcur : echfsSeek next 0 .cur = (next.ptr, next) := by
    unfold echfsSeek OpenFile.seekTo
    dsimp only
    rw [if_neg (by omega), Int.add_zero]
  refine ⟨next, hnext, ?_, ?_⟩
  · rw [hcur, hptr]
  · intro happend
    have hzero := hhandle.begin_eq happend
    have hset : echfsSeek next h.ptr .set = (h.ptr, { next with ptr := h.ptr }) := by
      unfold echfsSeek OpenFile.seekTo
      dsimp only
      rw [if_neg (by omega), hnextBegin, hzero, Int.zero_add]
    have hread := hspec.handle.seek h.ptr .set
    rw [hcur, hset]
    rw [hset] at hread
    constructor
    · show h.ptr ≠ -1
      omega
    · rw [(hread.uread data.length).1]
      dsimp only
      have hcount : min data.length (next.finish - h.ptr).toNat = data.length := by omega
      rw [hcount]
      apply fileBytes_eq
      intro offset hoffset
      rw [hspec.bytes _ (by omega), if_pos (by omega), Nat.add_sub_cancel_left]

-- After any calls on a handle, a write is read back exactly when it ends at or before the
-- end that echfs_open took from the directory entry.
theorem handle_reads_back_iff {v : Volume} {entries : List Entry} {chains : Nat → List Nat}
    {path : Path} {index flags devSize : Nat} (hfile : Existing m v entries chains path index)
    (hholds : m.blocks * BYTES_PER_BLOCK ≤ devSize) (hsmall : devSize < 2 ^ 31) {opened : OpenFile}
    (hopen : openFile v m path flags devSize = some opened) {calls : List HandleCall}
    (hguard : Guarded (handleStep m) (HasSpace m) opened calls)
    (hrun : run (handleStep m) opened calls = some h) (data : List UInt8) :
    ReadsBack m h data ↔ h.ptr + data.length ≤ h.finish := by
  have hhandle := (hfile.opened hholds hsmall hopen).calls hguard hrun
  constructor
  · rintro ⟨next, hnext, hcur, -⟩
    obtain ⟨hptr, hfinish⟩ := echfsUwrite_ptr hnext
    have hbegin := hhandle.begin_pos
    have hle := hhandle.begin_le
    unfold echfsSeek OpenFile.seekTo at hcur
    dsimp only at hcur
    split at hcur
    · dsimp only at hcur
      omega
    · omega
  · exact hhandle.readsBack

-- The same image with three bytes in /a.
def storedFile : Entry :=
  { parentId := ROOT_ID, type := FILE_TYPE, name := [97], payload := 18, size := 3 }

def storedDisk : Store :=
  wrEntry (wrQword reservedDisk (fatLoc smallMount 18) END_OF_CHAIN) smallMount 0 storedFile

def storedSize : Nat := smallMount.blocks * BYTES_PER_BLOCK

theorem storedDisk_wellFormed : WellFormed smallMount storedDisk [storedFile] fun _ => [18] := by
  have hempty : EmptyTable smallMount
      (wrQword reservedDisk (fatLoc smallMount 18) END_OF_CHAIN) := by decide +kernel
  have hfits : storedFile.Fits := ⟨by decide, by decide, by decide, by decide, by simp [storedFile]⟩
  have hnext : fat storedDisk smallMount 18 = END_OF_CHAIN := by decide +kernel
  have hdata : ∀ block ∈ [18], DataBlock smallMount block := by
    unfold DataBlock
    decide
  have hlength : [18].length = blockCount storedFile.size := by decide
  exact hempty.wellFormed smallMount_geometry hfits (by decide) (by decide +kernel)
    ⟨hdata, ⟨rfl, hnext⟩, by decide, hlength⟩

theorem storedDisk_existing : Existing smallMount { disk := storedDisk } [storedFile] (fun _ => [18])
    pathA 0 := by
  have hresolved : pathResolver storedDisk smallMount pathA FILE_TYPE =
      { targetEntry := 0, target := storedFile, parent := { payload := ROOT_ID }, name := [97] } := by
    decide +kernel
  exact storedDisk_wellFormed.existing (by decide) (by decide) hresolved rfl rfl rfl

theorem storedDisk_opens (flags : Nat) (happend : flags &&& O_APPEND = 0) :
    ∃ h, openFile { disk := storedDisk } smallMount pathA flags storedSize = some h ∧
      h.flags = flags ∧ h.ptr = 0 ∧ h.begin = 0 ∧ h.finish = 3 := by
  obtain ⟨slot, file, after, hcache, -, -, -, -, -⟩ := storedDisk_existing.cacheFile
  have hsize : (pathResolver storedDisk smallMount pathA FILE_TYPE).target.size = 3 := by
    have htarget := storedDisk_existing.target_eq
    generalize (pathResolver storedDisk smallMount pathA FILE_TYPE).target = target at *
    cases htarget
    rfl
  unfold openFile
  rw [hcache, Option.map_some]
  dsimp only
  rw [hsize, if_pos happend]
  exact ⟨_, rfl, rfl, rfl, rfl, rfl⟩

-- Two bytes at position 1 of three.
theorem bytes_inside_read_back : ∃ opened h,
    openFile { disk := storedDisk } smallMount pathA O_RDWR storedSize = some opened ∧
      run (handleStep smallMount) opened [.uread 2, .seek 1 .set] = some h ∧
      ReadsBack smallMount h [7, 8] := by
  obtain ⟨opened, hopen, -, hptr, hbegin, hfinish⟩ := storedDisk_opens O_RDWR (by decide)
  have hseek : run (handleStep smallMount) opened [.uread 2, .seek 1 .set] =
      some { (echfsUread opened 2).2 with ptr := 1 } := by
    have hsame : (echfsUread opened 2).2.begin = 0 ∧ (echfsUread opened 2).2.finish = 3 :=
      ⟨hbegin, hfinish⟩
    simp only [run, handleStep, Option.bind_some, echfsSeek, OpenFile.seekTo]
    rw [if_neg (by omega), hsame.1]
    rfl
  have hguard : Guarded (handleStep smallMount) (HasSpace smallMount) opened
      [.uread 2, .seek 1 .set] :=
    ⟨trivial, fun _ _ => ⟨trivial, fun _ _ => trivial⟩⟩
  refine ⟨opened, _, hopen, hseek, ?_⟩
  refine (handle_reads_back_iff storedDisk_existing (Nat.le_refl _) (by decide) hopen hguard hseek
    [7, 8]).mpr ?_
  show (1 : Int) + 2 ≤ (echfsUread opened 2).2.finish
  rw [show (echfsUread opened 2).2.finish = 3 from hfinish]
  decide

-- One byte at the end of the file: the write returns 1, and the handle stands past its end,
-- where it can neither be asked for its position nor read.
theorem byte_at_end_is_not_read_back :
    Existing smallMount { disk := storedDisk } [storedFile] (fun _ => [18]) pathA 0 ∧
    ∃ opened h next, openFile { disk := storedDisk } smallMount pathA O_RDWR storedSize = some opened ∧
      run (handleStep smallMount) opened [.seek 3 .set] = some h ∧
      echfsUwrite smallMount h [9] = some (1, next) ∧ h.ptr = 3 ∧
      (echfsSeek next 0 .cur).1 = -1 ∧ ¬ ReadsBack smallMount h [9] := by
  obtain ⟨opened, hopen, -, hptr, hbegin, hfinish⟩ := storedDisk_opens O_RDWR (by decide)
  have hseek : run (handleStep smallMount) opened [.seek 3 .set] = some { opened with ptr := 3 } := by
    simp only [run, handleStep, Option.bind_some, echfsSeek, OpenFile.seekTo]
    rw [if_neg (by omega), hbegin]
    rfl
  have hopened := storedDisk_existing.opened (Nat.le_refl _) (by decide) hopen
  have hguard : Guarded (handleStep smallMount) (HasSpace smallMount) opened [.seek 3 .set] :=
    ⟨trivial, fun _ _ => trivial⟩
  have hhandle := hopened.calls hguard hseek
  have hspace : HasSpace smallMount { opened with ptr := 3 } (.uwrite [9]) := by
    have hsize : 3 ≤ opened.file.size := by
      have hle := hopened.finish_le
      omega
    have hmono := blockCount_mono hsize
    have hsame : blockCount (3 + 1) = blockCount 3 := by decide
    show blockCount (3 + 1) ≤ blockCount opened.file.size + freeBlocks smallMount opened.dev.disk
    omega
  obtain ⟨next, hnext, hspec⟩ := hhandle.uwrite hspace
  have hlast : next.ptr = 4 := hspec.ptr
  have hend : next.finish = 3 := hspec.finish.trans hfinish
  have hlost : (echfsSeek next 0 .cur).1 = -1 := by
    unfold echfsSeek OpenFile.seekTo
    dsimp only
    rw [if_pos (by omega)]
  refine ⟨storedDisk_existing, opened, _, next, hopen, hseek, hnext, rfl, hlost, ?_⟩
  rintro ⟨after, hafter, hcur, -⟩
  rw [hnext] at hafter
  rw [← (Prod.mk.inj (Option.some.inj hafter)).2, hlost] at hcur
  exact absurd (show (-1 : Int) = 3 + 1 from hcur) (by decide)

end EchidnaOS.Echfs
