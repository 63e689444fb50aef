import EchidnaOS.Echfs.Store.Transfer

namespace EchidnaOS.Echfs

open EchidnaOS.Lib.ByteStore EchidnaOS.Lib.Cells EchidnaOS.Lib.Machine EchidnaOS.Lib.Run

variable {m : Mount} {v w : Volume} {entries : List Entry} {chains : Nat → List Nat}
  {action : PathCall} {actions : List PathCall}

-- The file a call is about.
def PathCall.file (call : PathCall) (disk : Store) (m : Mount) : FileName := fileName disk m call.path

-- A new file in an existing directory, in a slot that search gets to. Reads and writes of a
-- file that exists, the writes up to its end and with a free block if they need one. A file that
-- is cached is not removed: echfs_remove frees `cached_files` then and goes on with its address.
def Allowed (m : Mount) (v : Volume) : PathCall → Prop
  | .create path =>
      (pathResolver v.disk m path FILE_TYPE).failure = false ∧
        v.files m (fileName v.disk m path) = none ∧
        ∃ slot, findEmpty v.disk m = some slot ∧ slot < searchEnd m
  | .read path _ => (∃ bytes, v.files m (fileName v.disk m path) = some bytes) ∧ OneSpelling v m path
  | .write path _ loc =>
      (∃ bytes, v.files m (fileName v.disk m path) = some bytes ∧ loc ≤ bytes.length ∧
        blockCount (loc + 1) ≤ blockCount bytes.length + freeBlocks m v.disk) ∧ OneSpelling v m path
  | .remove path =>
      (pathResolver v.disk m path FILE_TYPE).failure = false ∧ OneSpelling v m path ∧
        ∀ file ∈ v.cachedFiles, file.path ≠ path
  | .getMetadata _ => True

-- A call that changes nothing.
theorem VolumeOk.unchanged (hok : VolumeOk m v entries chains) (name : FileName) :
    Served m v v name (v.files m name) :=
  ⟨⟨_, _, hok⟩, (Function.update_eq_self name _).symm, fun _ => rfl⟩

theorem VolumeOk.call (hok : VolumeOk m v entries chains) (hallowed : Allowed m v action) :
    ∃ w, v.call m action = some ((fileCell (v.files m (action.file v.disk m)) action).1, w) ∧
      Served m v w (action.file v.disk m) (fileCell (v.files m (action.file v.disk m)) action).2 := by
  cases action with
  | create path =>
      obtain ⟨hfailure, hnone, slot, hempty, hslot⟩ := hallowed
      obtain ⟨w, hw, hserved⟩ := hok.create hfailure hnone hempty hslot
      rw [PathCall.file, PathCall.path, hnone]
      exact ⟨w, hw, hserved⟩
  | read path loc =>
      obtain ⟨⟨bytes, hfile⟩, hspelling⟩ := hallowed
      obtain ⟨w, hw, hserved⟩ := hok.read hfile hspelling loc
      rw [PathCall.file, PathCall.path, hfile]
      exact ⟨w, hw, hserved⟩
  | write path val loc =>
      obtain ⟨⟨bytes, hfile, hloc, hspace⟩, hspelling⟩ := hallowed
      obtain ⟨w, hw, hserved⟩ := hok.write hfile hspelling hloc hspace val
      rw [PathCall.file, PathCall.path, hfile]
      exact ⟨w, hw, hserved⟩
  | remove path =>
      obtain ⟨hfailure, hspelling, -⟩ := hallowed
      rw [PathCall.file, PathCall.path]
      cases hfile : v.files m (fileName v.disk m path) with
      | some bytes =>
          obtain ⟨w, hw, hserved⟩ := hok.remove hfile hspelling
          exact ⟨w, hw, hserved⟩
      | none =>
          have hsame := hok.unchanged (fileName v.disk m path)
          rw [hfile] at hsame
          exact ⟨v, hok.remove_missing hfailure hfile, hsame⟩
  | getMetadata path =>
      have hsame := hok.unchanged (fileName v.disk m path)
      refine ⟨v, hok.getMetadata path, ?_⟩
      rw [PathCall.file, PathCall.path]
      cases hfile : v.files m (fileName v.disk m path) with
      | some bytes =>
          rw [hfile] at hsame
          exact hsame
      | none =>
          rw [hfile] at hsame
          exact hsame

-- The names of the start of a run, under which the volume is a map of files.
structure IsMap (m : Mount) (start : Store) (v : Volume) (files : FileName → Option (List UInt8)) :
    Prop where
  ok : ∃ entries chains, VolumeOk m v entries chains
  files : v.files m = files
  names : ∀ path, fileName v.disk m path = fileName start m path

-- Every run is answered as a map of files would answer it.
theorem VolumeOk.calls (hok : VolumeOk m v entries chains)
    (hguard : Guarded (advance (Volume.call m)) (Allowed m) v actions) :
    ∃ final, replies (Volume.call m) v actions =
        some ((trace (onCell (fun action => action.file v.disk m) fileCell) (v.files m) actions).1, final) ∧
      IsMap m v.disk final (trace (onCell (fun action => action.file v.disk m) fileCell) (v.files m) actions).2 := by
  have hinit : IsMap m v.disk v (v.files m) := ⟨⟨_, _, hok⟩, rfl, fun _ => rfl⟩
  refine replies_refine ?_ hinit hguard
  rintro state _ request ⟨⟨entries, chains, hstate⟩, rfl, hnames⟩ hallowed
  obtain ⟨next, hnext, ⟨hafter, hfiles, hkept⟩⟩ := hstate.call hallowed
  have hname : request.file state.disk m = request.file v.disk m := hnames request.path
  rw [hname] at hnext hfiles
  refine ⟨next, hnext, hafter, hfiles, ?_⟩
  intro path
  rw [hkept path, hnames path]

-- The calls by path, on a well-formed volume and in any order, return what a map from names to
-- byte strings returns, and leave a well-formed volume that stands for the same map.
theorem path_calls_are_a_file_map (hok : VolumeOk m v entries chains)
    (hguard : Guarded (advance (Volume.call m)) (Allowed m) v actions) :
    ∃ final, replies (Volume.call m) v actions =
        some ((trace (onCell (fun action => action.file v.disk m) fileCell) (v.files m) actions).1, final) ∧
      final.files m = (trace (onCell (fun action => action.file v.disk m) fileCell) (v.files m) actions).2 ∧
      (∀ path, fileName final.disk m path = fileName v.disk m path) ∧
      ∃ entries chains, VolumeOk m final entries chains := by
  obtain ⟨final, hreplies, hafter, hfiles, hnames⟩ := hok.calls hguard
  exact ⟨final, hreplies, hfiles, hnames, hafter⟩

-- The guard on concrete runs.
def oneSpelling (v : Volume) (m : Mount) (path : Path) : Bool :=
  v.cachedFiles.all fun file => fileName v.disk m file.path ≠ fileName v.disk m path ∨ file.path = path

def allowed (m : Mount) (v : Volume) : PathCall → Bool
  | .create path =>
      !(pathResolver v.disk m path FILE_TYPE).failure && (v.files m (fileName v.disk m path)).isNone &&
        (findEmpty v.disk m).any (· < searchEnd m)
  | .read path _ => (v.files m (fileName v.disk m path)).isSome && oneSpelling v m path
  | .write path _ loc =>
      (v.files m (fileName v.disk m path)).any (fun bytes => loc ≤ bytes.length &&
        blockCount (loc + 1) ≤ blockCount bytes.length + freeBlocks m v.disk) && oneSpelling v m path
  | .remove path =>
      !(pathResolver v.disk m path FILE_TYPE).failure && oneSpelling v m path &&
        v.cachedFiles.all (·.path ≠ path)
  | .getMetadata _ => true

theorem OneSpelling.of_bool {path : Path} (hone : oneSpelling v m path = true) : OneSpelling v m path := by
  intro file hmem hname
  rcases of_decide_eq_true (List.all_eq_true.mp hone file hmem) with hne | hpath
  · exact absurd hname hne
  · exact hpath

theorem Allowed.of_bool (hallowed : allowed m v action = true) : Allowed m v action := by
  cases action with
  | create path =>
      simp only [allowed, Bool.and_eq_true, Bool.not_eq_true', Option.isNone_iff_eq_none] at hallowed
      obtain ⟨⟨hfailure, hnone⟩, hempty⟩ := hallowed
      obtain ⟨slot, hslot, hlt⟩ := (Option.any_eq_true _ _).mp hempty
      exact ⟨hfailure, hnone, slot, hslot, of_decide_eq_true hlt⟩
  | read path loc =>
      obtain ⟨hfile, hone⟩ := Bool.and_eq_true_iff.mp hallowed
      exact ⟨Option.isSome_iff_exists.mp hfile, .of_bool hone⟩
  | write path val loc =>
      obtain ⟨hfile, hone⟩ := Bool.and_eq_true_iff.mp hallowed
      obtain ⟨bytes, hbytes, hroom⟩ := (Option.any_eq_true _ _).mp hfile
      obtain ⟨hloc, hspace⟩ := Bool.and_eq_true_iff.mp hroom
      exact ⟨⟨bytes, hbytes, of_decide_eq_true hloc, of_decide_eq_true hspace⟩, .of_bool hone⟩
  | remove path =>
      simp only [allowed, Bool.and_eq_true, Bool.not_eq_true'] at hallowed
      obtain ⟨⟨hfailure, hone⟩, huncached⟩ := hallowed
      exact ⟨hfailure, .of_bool hone, fun file hmem =>
        of_decide_eq_true (List.all_eq_true.mp huncached file hmem)⟩
  | getMetadata path => exact trivial

-- An image whose only entry is the empty file /a, with nothing in the cache.
theorem onlyA_ok {disk : Store} (htable : Table smallMount disk [emptyFile])
    (hsound : Sound smallMount disk fun _ => []) :
    VolumeOk smallMount { disk := disk } [emptyFile] fun _ => [] := by
  have hids : DirectoryIds [emptyFile] := by
    intro entry hmem htype
    rw [List.mem_singleton.mp hmem] at htype
    exact absurd htype file_ne_directory
  have hsingle : ∀ name first second, NamedFile [emptyFile] name first →
      NamedFile [emptyFile] name second → first = second := by
    intro name first second hfirst hsecond
    obtain ⟨hleft, -⟩ := namedFile_iff.mp hfirst
    obtain ⟨hright, -⟩ := namedFile_iff.mp hsecond
    rw [List.length_singleton] at hleft hright
    omega
  have himage : ImageOk smallMount disk [emptyFile] fun _ => [] :=
    ⟨htable, by decide, hsound, hids, hsingle⟩
  exact ⟨himage, by simp, by simp, by simp⟩

theorem nameB_ne_nul : (98 : UInt8) ≠ 0 := by decide

-- A byte is written to /a, while /b comes and goes.
def secondFile : List PathCall :=
  [.getMetadata pathA, .create (rootPath 98 nameB_ne_nul), .getMetadata (rootPath 98 nameB_ne_nul),
    .remove (rootPath 98 nameB_ne_nul), .write pathA 7 0, .getMetadata pathA]

theorem secondFile_guarded :
    Guarded (advance (Volume.call smallMount)) (Allowed smallMount) { disk := smallDisk } secondFile := by
  have hallowed : Guarded (advance (Volume.call smallMount))
      (fun v action => allowed smallMount v action = true) { disk := smallDisk } secondFile := by
    decide +kernel
  exact hallowed.of_invariant (fun _ _ _ _ _ _ => trivial) (fun _ _ _ => Allowed.of_bool) trivial

theorem first_byte_goes_into_the_map : ∃ final,
    replies (Volume.call smallMount) { disk := smallDisk } secondFile =
      some ((trace (onCell (fun action => action.file smallDisk smallMount) fileCell)
        (Volume.files { disk := smallDisk } smallMount) secondFile).1, final) ∧
    final.files smallMount =
      (trace (onCell (fun action => action.file smallDisk smallMount) fileCell)
        (Volume.files { disk := smallDisk } smallMount) secondFile).2 ∧
    (∀ path, fileName final.disk smallMount path = fileName smallDisk smallMount path) ∧
    ∃ entries chains, VolumeOk smallMount final entries chains := by
  have hguard := secondFile_guarded
  have htable := smallDisk_wellFormed.table
  have hsound := smallDisk_sound
  generalize smallDisk = disk at hguard htable hsound ⊢
  exact path_calls_are_a_file_map (onlyA_ok htable hsound) hguard

-- Whatever calls on other files stand between them, the calls on one file are answered as if
-- they were the only ones.
theorem calls_on_other_files_do_not_show (hok : VolumeOk m v entries chains)
    (hguard : Guarded (advance (Volume.call m)) (Allowed m) v actions) (name : FileName) :
    ∃ outputs final, replies (Volume.call m) v actions = some (outputs, final) ∧
      repliesOn (fun action => action.file v.disk m) name actions outputs =
        (trace fileCell (v.files m name) (actions.filter fun action => action.file v.disk m = name)).1 ∧
      final.files m name =
        (trace fileCell (v.files m name) (actions.filter fun action => action.file v.disk m = name)).2 := by
  obtain ⟨final, hreplies, -, hfiles, -⟩ := hok.calls hguard
  obtain ⟨houtputs, hcell⟩ :=
    onCell_alone (fun action : PathCall => action.file v.disk m) fileCell name (v.files m) actions
  refine ⟨_, final, hreplies, houtputs, ?_⟩
  rw [hfiles]
  exact hcell

theorem first_byte_alone : ∃ outputs final,
    replies (Volume.call smallMount) { disk := smallDisk } secondFile = some (outputs, final) ∧
    repliesOn (fun action => action.file smallDisk smallMount) ⟨ROOT_ID, [97]⟩ secondFile outputs =
      (trace fileCell (Volume.files { disk := smallDisk } smallMount ⟨ROOT_ID, [97]⟩)
        (secondFile.filter fun action => action.file smallDisk smallMount = ⟨ROOT_ID, [97]⟩)).1 ∧
    final.files smallMount ⟨ROOT_ID, [97]⟩ =
      (trace fileCell (Volume.files { disk := smallDisk } smallMount ⟨ROOT_ID, [97]⟩)
        (secondFile.filter fun action => action.file smallDisk smallMount = ⟨ROOT_ID, [97]⟩)).2 := by
  have hguard := secondFile_guarded
  have htable := smallDisk_wellFormed.table
  have hsound := smallDisk_sound
  generalize smallDisk = disk at hguard htable hsound ⊢
  exact calls_on_other_files_do_not_show (onlyA_ok htable hsound) hguard ⟨ROOT_ID, [97]⟩

end EchidnaOS.Echfs
