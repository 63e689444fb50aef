import EchidnaOS.Vfs.Attached
import EchidnaOS.Vfs.Isolation
import EchidnaOS.Vfs.Ownership.Objects

namespace EchidnaOS.Vfs

open EchidnaOS.Lib EchidnaOS.Lib.SlotTable EchidnaOS.Lib.Reference EchidnaOS.Klib EchidnaOS.Devfs EchidnaOS.Echfs

variable {s middle next : State} {mem later : Memory} {node target : Node} {pid device : Nat} {m : Mount}
  {path : Path} {flags : Nat} {handle mountpoint : Int} {partitions : List Int} {pending : List Node}
  {graph : Node → Option (Option Node)}

-- Every handle is that of a descriptor or of a partition, or in a local variable.
def Covered (partitions : List Int) (pending : List Node) (graph : Node → Option (Option Node)) : Prop :=
  Referred Node.isHandle (fun node => node ∈ pending ∨ ∃ fd ∈ partitions, node = .devfs fd) graph

-- What comes with a new node that nothing refers to yet.
structure Brings (s next : State) (node : Node) : Prop where
  system : SameSystem s next
  attached : Attached next
  fresh : Fresh next.refers node
  grows : Extends s.refers next.refers
  absent : s.refers node = none
  covered : ∀ partitions pending, Covered partitions pending s.refers →
    Covered partitions (node :: pending) next.refers

theorem Covered.insert {value : Option Node} {other : List Node}
    (hcovered : Covered partitions pending graph) (habsent : graph node = none)
    (hpending : ∀ there ∈ pending, there ∈ other ∨ value = some there)
    (hnode : node.isHandle → node ∈ other) :
    Covered partitions other (Function.update graph node (some value)) := by
  refine Referred.insert hcovered habsent ?_ fun hhandle => Or.inl (hnode hhandle)
  rintro there (hthere | hpartition)
  · rcases hpending there hthere with hother | hvalue
    · exact Or.inl (Or.inl hother)
    · exact Or.inr hvalue
  · exact Or.inl (Or.inr hpartition)

theorem Covered.mono {other : List Node} (hcovered : Covered partitions pending graph)
    (hpending : ∀ there ∈ pending, there.isHandle →
      there ∈ other ∨ ∃ source, graph source = some (some there)) :
    Covered partitions other graph := by
  refine Referred.mono hcovered ?_
  rintro there hhandle (hthere | hpartition)
  · rcases hpending there hthere hhandle with hother | hsource
    · exact Or.inl (Or.inl hother)
    · exact Or.inr hsource
  · exact Or.inl (Or.inr hpartition)

-- A descriptor is no handle.
theorem Covered.descriptor (hcovered : Covered partitions (.descriptor pid handle :: pending) graph) :
    Covered partitions pending graph := by
  refine hcovered.mono ?_
  intro there hthere hhandle
  rcases List.mem_cons.mp hthere with rfl | hthere
  · exact absurd hhandle not_false
  · exact Or.inl hthere

theorem Brings.leaf (hattached : Attached s) (hadds : Adds s next node none) : Brings s next node := by
  obtain ⟨hnext, hfresh⟩ := hadds.attached hattached (by simp) (by simp)
  refine ⟨hadds.system, hnext, hfresh, ?_, hadds.absent, ?_⟩
  · rw [hadds.refers]
    exact (Extends.refl _).insert hadds.absent (by simp)
  · intro partitions pending hcovered
    rw [hadds.refers]
    exact hcovered.insert hadds.absent (fun there h => Or.inl (List.mem_cons_of_mem _ h))
      fun _ => List.mem_cons_self

-- A node for the one that has been brought.
theorem Brings.refer (hbrings : Brings s middle target) (hadds : Adds middle next node (some target))
    (hdevice : ∀ handle, node = .echfs handle →
      ∃ device, middle.refers target = some (some (.devfs device))) : Brings s next node := by
  have habsent : s.refers node = none := by
    by_contra hthere
    exact hbrings.grows.present hthere hadds.absent
  obtain ⟨hnext, hfresh⟩ := hadds.attached hbrings.attached
    (fun there heq => Option.some.inj heq ▸ hbrings.fresh)
    (fun handle there hecho heq => Option.some.inj heq ▸ hdevice handle hecho)
  refine ⟨hbrings.system.trans hadds.system, hnext, hfresh, ?_, habsent, ?_⟩
  · rw [hadds.refers]
    exact hbrings.grows.insert hadds.absent fun there heq => Option.some.inj heq ▸ hbrings.absent
  · intro partitions pending hcovered
    rw [hadds.refers]
    refine (hbrings.covered partitions pending hcovered).insert hadds.absent ?_ fun _ => List.mem_cons_self
    intro there hthere
    rcases List.mem_cons.mp hthere with rfl | hthere
    · exact Or.inr rfl
    · exact Or.inl (List.mem_cons_of_mem _ hthere)

theorem Brings.before (hsame : SameNodes s middle) (hbrings : Brings middle next node) :
    Brings s next node := by
  obtain ⟨hsystem, hattached, hfresh, hgrows, habsent, hcovered⟩ := hbrings
  rw [hsame.refers] at hgrows habsent hcovered
  exact ⟨hsame.system.trans hsystem, hattached, hfresh, hgrows, habsent, hcovered⟩

theorem Brings.after (hbrings : Brings s middle node) (hsame : SameNodes middle next) :
    Brings s next node := by
  obtain ⟨hsystem, hattached, hfresh, hgrows, habsent, hcovered⟩ := hbrings
  refine ⟨hsystem.trans hsame.system, hsame.attached hattached, ?_, ?_, habsent, ?_⟩
  · rw [hsame.refers]
    exact hfresh
  · rw [hsame.refers]
    exact hgrows
  · rw [hsame.refers]
    exact hcovered

section Growth

variable {ptr new size slot : Nat}

theorem resize_quiet (hresize : mem.resize ptr size = some (new, later)) : Quiet mem.s later.s := by
  obtain ⟨-, heap, rfl⟩ := resize_spec hresize
  exact ⟨rfl, rfl, rfl, rfl, rfl⟩

theorem growMap_quiet {entries : List Nat} (hgrow : mem.growMap slot entries = some later) :
    Quiet mem.s later.s := by
  induction entries generalizing mem with
  | nil =>
      cases hgrow
      exact .refl _
  | cons i rest ih =>
      obtain ⟨⟨new, grown⟩, hresize, hrest⟩ := Option.bind_eq_some_iff.mp hgrow
      have hfirst := resize_quiet hresize
      have hlast := ih hrest
      exact hfirst.trans hlast

theorem search_state (mem : Memory) (path : Path) : (mem.search path).s = mem.s := by
  unfold Memory.search
  split
  · rfl
  · rfl

theorem memoryCacheFile_quiet {reset : Bool} {result : Nat × Memory}
    (hcache : mem.cacheFile m device path reset = some result) : Quiet mem.s result.2.s := by
  have hsearch : Quiet mem.s (mem.search path).s := by
    rw [search_state]
    exact .refl _
  unfold Memory.cacheFile at hcache
  split at hcache
  · cases hcache
    exact hsearch
  · obtain ⟨file, -, hcache⟩ := Option.bind_eq_some_iff.mp hcache
    obtain ⟨added, hadd, hcache⟩ := Option.bind_eq_some_iff.mp hcache
    obtain ⟨loaded, hload, rfl⟩ := Option.map_eq_some_iff.mp hcache
    obtain ⟨⟨new, first⟩, hfirst, hgrow⟩ := Option.bind_eq_some_iff.mp hload
    have hadded : Quiet mem.s added.s := by
      unfold Memory.addCached at hadd
      dsimp only at hadd
      split at hadd
      · cases hadd
      · cases hadd
        exact hsearch.trans (addCached_quiet _ file reset)
    have hlast := growMap_quiet hgrow
    exact (hadded.trans (resize_quiet hfirst)).trans hlast

theorem growDevfs_quiet (hgrow : mem.growDevfs = some later) : Quiet mem.s later.s := by
  unfold Memory.growDevfs at hgrow
  split at hgrow
  · cases hgrow
    exact .refl _
  · obtain ⟨⟨new, grown⟩, hresize, rfl⟩ := Option.map_eq_some_iff.mp hgrow
    have hquiet := resize_quiet hresize
    exact hquiet

theorem growDevfs_devices (hgrow : mem.growDevfs = some later) : later.s.devices = mem.s.devices := by
  unfold Memory.growDevfs at hgrow
  split at hgrow
  · cases hgrow
    rfl
  · obtain ⟨⟨new, grown⟩, hresize, rfl⟩ := Option.map_eq_some_iff.mp hgrow
    obtain ⟨-, heap, rfl⟩ := resize_spec hresize
    rfl

theorem growEchfs_quiet (hgrow : mem.growEchfs = some later) : Quiet mem.s later.s := by
  unfold Memory.growEchfs at hgrow
  split at hgrow
  · cases hgrow
    exact .refl _
  · obtain ⟨⟨new, grown⟩, hresize, rfl⟩ := Option.map_eq_some_iff.mp hgrow
    have hquiet := resize_quiet hresize
    exact hquiet

theorem createDescriptor_state {entry : FileHandleV2} {result : Int × Memory}
    (hcreate : mem.createDescriptor pid entry = some result) :
    result.1 = (mem.s.createDescriptor pid entry).1 ∧
      result.2.s = (mem.s.createDescriptor pid entry).2 := by
  unfold Memory.createDescriptor at hcreate
  dsimp only at hcreate
  split at hcreate
  · cases hcreate
    exact ⟨rfl, rfl⟩
  · split at hcreate
    · cases hcreate
    · cases hcreate
      exact ⟨rfl, rfl⟩

end Growth

-- A descriptor for the handle that has been brought.
theorem Brings.descriptor {entry : FileHandleV2} {result : Int × Memory}
    (hbrings : Brings s mem.s target) (hstatus : (s.kernel.taskTable pid).status ≠ none)
    (hused : entry.free = false) (htarget : s.internal entry = some target)
    (hcreate : mem.createDescriptor pid entry = some result) :
    0 ≤ result.1 ∧ Brings s result.2.s (.descriptor pid result.1) ∧
      result.2.s.refers (.descriptor pid result.1) = some (some target) := by
  obtain ⟨hnumber, hstate⟩ := createDescriptor_state hcreate
  rw [← hbrings.system.status] at hstatus
  have hadds := createDescriptor_adds hstatus hused
  rw [internal_congr hbrings.system.mountpoint, htarget, ← hnumber, ← hstate] at hadds
  refine ⟨?_, hbrings.refer hadds (by simp), ?_⟩
  · rw [hnumber]
    exact Int.natCast_nonneg _
  · rw [hadds.refers, Function.update_self]

-- The kernel's descriptor of a device, with the handle of the device.
theorem kopen_brings (hattached : Attached mem.s) {result : Int × Memory}
    (hopen : mem.kopen device = some result) :
    Brings mem.s result.2.s (.descriptor 0 result.1) ∧
      ∃ number, result.2.s.refers (.descriptor 0 result.1) = some (some (.devfs number)) := by
  rw [kopen_eq] at hopen
  obtain ⟨grown, hgrow, hcreate⟩ := Option.bind_eq_some_iff.mp hopen
  have hquiet := growDevfs_quiet hgrow
  have hgrown := hquiet.attached hattached
  have hleaf := Brings.leaf hgrown (devfsCreateHandle_adds grown.s
    (show (deviceHandle grown.s device).free = false from rfl))
  have hstatus : (grown.s.kernel.taskTable 0).status ≠ none := by
    rw [hgrown.kernel]
    simp
  have htarget : ∀ number, grown.s.internal
      { mountpoint := grown.s.devMountpoint, internalHandle := number } = some (.devfs number) := by
    intro number
    rw [State.internal, hgrown.device]
    rfl
  obtain ⟨-, hbrings, hrefers⟩ := hleaf.descriptor hstatus rfl (htarget _) hcreate
  exact ⟨hbrings.before hquiet.nodes, _, hrefers⟩

-- A handle of echfs for a device that has been opened.
theorem Brings.file {entry : EchfsHandle} {grown : State}
    (hbrings : Brings s middle (.descriptor 0 handle)) {number : Int}
    (hrefers : middle.refers (.descriptor 0 handle) = some (some (.devfs number)))
    (hquiet : Quiet middle grown) (hused : entry.free = false) (hdev : entry.devHandle = handle) :
    Brings s (echfsCreateHandle grown entry).2 (.echfs (echfsCreateHandle grown entry).1) := by
  have hadds := echfsCreateHandle_adds grown hused
  rw [hdev] at hadds
  refine (hbrings.after hquiet.nodes).refer hadds ?_
  intro _ _
  refine ⟨number, ?_⟩
  rw [hquiet.refers]
  exact hrefers

theorem openCached_brings (hattached : Attached mem.s) {size : Nat} {result : Int × Memory}
    (hopen : mem.openCached m device path flags size = some result) :
    0 ≤ result.1 ∧ Brings mem.s result.2.s (.echfs result.1) := by
  obtain ⟨cached, hcache, hopen⟩ := Option.bind_eq_some_iff.mp hopen
  obtain ⟨opened, hkopen, hopen⟩ := Option.bind_eq_some_iff.mp hopen
  obtain ⟨grown, hgrow, rfl⟩ := Option.map_eq_some_iff.mp hopen
  have hquiet := memoryCacheFile_quiet hcache
  obtain ⟨hbrings, number, hrefers⟩ := kopen_brings (hquiet.attached hattached) hkopen
  refine ⟨Int.natCast_nonneg _, Brings.before hquiet.nodes ?_⟩
  exact hbrings.file hrefers (growEchfs_quiet hgrow) rfl rfl

theorem remove_quiet {result : Int × Memory} (hfound : mem.s.findCached path = none)
    (hremove : mem.remove m device path = some result) : Quiet mem.s result.2.s := by
  have hsearch : Quiet mem.s (mem.search path).s := by
    rw [search_state]
    exact .refl _
  unfold Memory.remove at hremove
  rw [hfound] at hremove
  obtain ⟨removed, -, rfl⟩ := Option.map_eq_some_iff.mp hremove
  cases removed with
  | none => exact hsearch
  | some disk => exact hsearch.trans (setDisk_quiet _ device disk)

theorem memoryTruncate_quiet {size : Nat} {result : Nat × Memory}
    (hfound : flags &&& O_TRUNC ≠ 0 → mem.s.findCached path = none)
    (htruncate : mem.truncate m device path flags size = some result) : Quiet mem.s result.2.s := by
  unfold Memory.truncate at htruncate
  by_cases hflags : flags &&& O_TRUNC = 0
  · rw [if_pos hflags] at htruncate
    cases htruncate
    exact .refl _
  · rw [if_neg hflags] at htruncate
    obtain ⟨removed, hremove, hcreate⟩ := Option.bind_eq_some_iff.mp htruncate
    obtain ⟨created, -, rfl⟩ := Option.map_eq_some_iff.mp hcreate
    have hquiet := remove_quiet (hfound hflags) hremove
    cases created with
    | none => exact hquiet
    | some disk => exact hquiet.trans (setDisk_quiet _ device disk)

-- A call that opens returns -1 and has done nothing, or a number for a new node.
def OpensNode (mem : Memory) (result : Int × Memory) (node : Int → Node) : Prop :=
  result = (-1, mem) ∨ 0 ≤ result.1 ∧ Brings mem.s result.2.s (node result.1)

theorem openFile_opens (hattached : Attached mem.s)
    (hkeeps : ¬ RemovesCached mem ⟨m, device, .open path flags⟩) {result : Int × Memory}
    (hopen : mem.openFile m device path flags = some result) : OpensNode mem result .echfs := by
  obtain ⟨found, hfound, hopen⟩ := Option.bind_eq_some_iff.mp hopen
  cases found with
  | none =>
      cases hopen
      exact Or.inl rfl
  | some found =>
      obtain ⟨ready, htruncate, hopen⟩ := Option.bind_eq_some_iff.mp hopen
      have hready := memoryTruncate_quiet (uncached_of_truncate hkeeps hfound) htruncate
      have hquiet := (findOrCreate_quiet hfound).trans hready
      obtain ⟨hnumber, hbrings⟩ := openCached_brings (hquiet.attached hattached) hopen
      exact Or.inr ⟨hnumber, hbrings.before hquiet.nodes⟩

theorem devfsOpen_opens (hattached : Attached mem.s) {result : Int × Memory}
    (hopen : mem.devfsOpen path flags = some result) : OpensNode mem result .devfs := by
  unfold Memory.devfsOpen at hopen
  split at hopen
  · cases hopen
    exact Or.inl rfl
  · rename_i hne
    obtain ⟨grown, hgrow, rfl⟩ := Option.map_eq_some_iff.mp hopen
    have hquiet := growDevfs_quiet hgrow
    have hgrown := hquiet.attached hattached
    have hdevices := growDevfs_devices hgrow
    right
    unfold Vfs.devfsOpen at hne ⊢
    rw [hdevices]
    split at hne
    · exact absurd rfl hne
    · split at hne
      · exact absurd rfl hne
      · rename_i hflags
        dsimp only
        rw [if_neg hflags]
        refine ⟨Int.natCast_nonneg _, Brings.before hquiet.nodes ?_⟩
        exact .leaf hgrown (devfsCreateHandle_adds _ rfl)

theorem memoryVfsOpen_opens (hattached : Attached mem.s)
    (hstatus : (mem.s.kernel.taskTable pid).status ≠ none) (hkeeps : OpenKeeps mem mountpoint path flags)
    {result : Int × Memory} (hopen : mem.vfsOpen pid mountpoint path flags = some result) :
    OpensNode mem result (.descriptor pid) := by
  obtain ⟨opened, hinternal, hopen⟩ := Option.bind_eq_some_iff.mp hopen
  -- the descriptor, whichever file system opened the handle
  have hfinish : ∀ node : Int → Node, OpensNode mem opened node →
      mem.s.internal { mountpoint := mountpoint, internalHandle := opened.1 } = some (node opened.1) →
      OpensNode mem result (.descriptor pid) := by
    rintro node (rfl | ⟨hnumber, hbrings⟩) htarget
    · cases hopen
      exact Or.inl rfl
    · rw [if_neg (by omega)] at hopen
      obtain ⟨hresult, hdescriptor, -⟩ := hbrings.descriptor hstatus rfl htarget hopen
      exact Or.inr ⟨hresult, hdescriptor⟩
  unfold Memory.internalOpen at hinternal
  cases hmount : mem.s.mountpoint mountpoint with
  | none =>
      rw [hmount] at hinternal
      cases hinternal
      cases hopen
      exact Or.inl rfl
  | some there =>
      rw [hmount] at hinternal
      have htarget : ∀ number, mem.s.internal { mountpoint := mountpoint, internalHandle := number } =
          some (there.node number) := by
        intro number
        rw [State.internal, hmount]
        rfl
      cases there with
      | devfs => exact hfinish .devfs (devfsOpen_opens hattached hinternal) (htarget _)
      | echfs m device =>
          exact hfinish .echfs (openFile_opens hattached (hkeeps m device hmount) hinternal) (htarget _)

-- A fork of a handle of devfs that is in use.
theorem devfsFork_brings (hattached : Attached mem.s) (hused : mem.s.refers (.devfs handle) ≠ none)
    {result : Int × Memory} (hfork : mem.devfsFork handle = some result) :
    Brings mem.s result.2.s (.devfs result.1) := by
  obtain ⟨entry, hentry, hfork⟩ := Option.bind_eq_some_iff.mp hfork
  obtain ⟨grown, hgrow, rfl⟩ := Option.map_eq_some_iff.mp hfork
  have hquiet := growDevfs_quiet hgrow
  obtain ⟨target, htarget⟩ := Option.ne_none_iff_exists'.mp hused
  obtain ⟨there, hthere, -⟩ := Option.map_eq_some_iff.mp htarget
  obtain ⟨hat, hlive⟩ := inUse_eq_some.mp hthere
  rw [hat] at hentry
  cases hentry
  exact Brings.before hquiet.nodes
    (.leaf (hquiet.attached hattached) (devfsCreateHandle_adds grown.s hlive))

theorem echfsFork_brings (hattached : Attached mem.s) (hused : mem.s.refers (.echfs handle) ≠ none)
    {result : Int × Memory} (hfork : mem.echfsFork handle = some result) :
    Brings mem.s result.2.s (.echfs result.1) := by
  obtain ⟨entry, hentry, hfork⟩ := Option.bind_eq_some_iff.mp hfork
  obtain ⟨forked, hkfork, hfork⟩ := Option.bind_eq_some_iff.mp hfork
  obtain ⟨grown, hgrow, rfl⟩ := Option.map_eq_some_iff.mp hfork
  obtain ⟨target, htarget⟩ := Option.ne_none_iff_exists'.mp hused
  obtain ⟨there, hthere, -⟩ := Option.map_eq_some_iff.mp htarget
  obtain ⟨hat, hlive⟩ := inUse_eq_some.mp hthere
  rw [hat] at hentry
  cases hentry
  have hdescriptor : mem.s.refers (.echfs handle) = some (some (.descriptor 0 entry.devHandle)) := by
    rw [State.refers, hthere]
    rfl
  -- the kernel's descriptor is that of a device
  obtain ⟨number, hdevice⟩ := hattached.chained.devices _ _ hdescriptor
  have hpresent := hattached.chained.exclusive.present _ _ hdevice
  have hinternal := descriptor_of_open (hattached.chained.exclusive.present _ _ hdescriptor)
  rw [hdevice] at hinternal
  have hself := (Option.some.inj hinternal).symm
  obtain ⟨mountpoint, hmount, hnode⟩ := Option.map_eq_some_iff.mp hself
  cases mountpoint with
  | echfs m device => cases hnode
  | devfs =>
      have hnumber := Node.devfs.inj hnode
      unfold Memory.vfsKfork at hkfork
      dsimp only at hkfork
      rw [hmount] at hkfork
      obtain ⟨copied, hcopy, hcreate⟩ := Option.bind_eq_some_iff.mp hkfork
      rw [← hnumber] at hpresent
      have hleaf := devfsFork_brings hattached hpresent hcopy
      have hstatus : (mem.s.kernel.taskTable 0).status ≠ none := by
        rw [hattached.kernel]
        simp
      have htarget : mem.s.internal { mountpoint := (mem.s.descriptor 0 entry.devHandle).mountpoint
                                      internalHandle := copied.1 } = some (.devfs copied.1) := by
        rw [State.internal, hmount]
        rfl
      obtain ⟨-, hbrings, hrefers⟩ := hleaf.descriptor hstatus rfl htarget hcreate
      exact hbrings.file hrefers (growEchfs_quiet hgrow) hlive rfl

-- A descriptor whose handle is in use.
theorem internalFork_brings (hattached : Attached mem.s) {descriptor : FileHandleV2} {target : Node}
    (htarget : mem.s.internal descriptor = some target) (hused : mem.s.refers target ≠ none)
    {result : Int × Memory} (hfork : mem.internalFork descriptor = some result) :
    ∃ node, mem.s.internal { mountpoint := descriptor.mountpoint, internalHandle := result.1 } =
        some node ∧ node.isHandle ∧ Brings mem.s result.2.s node := by
  obtain ⟨mountpoint, hmount, rfl⟩ := Option.map_eq_some_iff.mp htarget
  have hinternal : ∀ number, mem.s.internal { mountpoint := descriptor.mountpoint, internalHandle := number } =
      some (mountpoint.node number) := by
    intro number
    rw [State.internal, hmount]
    rfl
  unfold Memory.internalFork at hfork
  rw [hmount] at hfork
  refine ⟨_, hinternal _, ?_⟩
  cases mountpoint with
  | devfs => exact ⟨trivial, devfsFork_brings hattached hused hfork⟩
  | echfs m device => exact ⟨trivial, echfsFork_brings hattached hused hfork⟩

-- What an entry of a table refers to.
def State.entryNode (s : State) (entry : FileHandleV2) : Option Node :=
  if entry.free then none else s.internal entry

theorem entryNode_congr (hsame : next.mountpoint = s.mountpoint) : next.entryNode = s.entryNode := by
  funext entry
  rw [State.entryNode, State.entryNode, internal_congr hsame]

-- A table of descriptors with a new handle for each that is open.
structure Cloned (s next : State) (cloned : List FileHandleV2) : Prop where
  system : SameSystem s next
  attached : Attached next
  grows : Extends s.refers next.refers
  fresh : ∀ node ∈ cloned.filterMap s.entryNode, Fresh next.refers node ∧ s.refers node = none
  distinct : cloned.Pairwise fun first second =>
    ∀ node, s.entryNode first = some node → s.entryNode second ≠ some node
  covered : ∀ partitions pending, Covered partitions pending s.refers →
    Covered partitions (cloned.filterMap s.entryNode ++ pending) next.refers

theorem Cloned.nil (hattached : Attached s) : Cloned s s [] where
  system := .refl s
  attached := hattached
  grows := .refl _
  fresh := by simp
  distinct := .nil
  covered := fun _ _ hcovered => hcovered

theorem Cloned.skip {rest : List FileHandleV2} {entry : FileHandleV2} (hrest : Cloned s next rest)
    (hfree : entry.free = true) : Cloned s next (entry :: rest) := by
  have hnone : s.entryNode entry = none := by rw [State.entryNode, if_pos hfree]
  obtain ⟨hsystem, hattached, hgrows, hfresh, hdistinct, hcovered⟩ := hrest
  refine ⟨hsystem, hattached, hgrows, ?_, ?_, ?_⟩
  · rw [List.filterMap_cons_none hnone]
    exact hfresh
  · refine List.pairwise_cons.mpr ⟨?_, hdistinct⟩
    intro other _ node hnode
    rw [hnone] at hnode
    cases hnode
  · rw [List.filterMap_cons_none hnone]
    exact hcovered

-- One descriptor more: its handle comes first, and those of the others are newer.
theorem Cloned.cons {rest : List FileHandleV2} {entry : FileHandleV2} (hfirst : Brings s middle node)
    (hnode : s.entryNode entry = some node) (hrest : Cloned middle next rest) :
    Cloned s next (entry :: rest) := by
  have hsame := entryNode_congr hfirst.system.mountpoint
  have hpresent := hfirst.fresh.present
  obtain ⟨hsystem, hattached, hgrows, hfresh, hdistinct, hcovered⟩ := hrest
  rw [hsame] at hfresh hdistinct hcovered
  have hkept : Fresh next.refers node :=
    ⟨hgrows.present hpresent, hgrows.unreferred hpresent hfirst.fresh.unreferred⟩
  refine ⟨hfirst.system.trans hsystem, hattached, hfirst.grows.trans hgrows, ?_, ?_, ?_⟩
  · rw [List.filterMap_cons_some hnode]
    intro other hother
    rcases List.mem_cons.mp hother with rfl | hother
    · exact ⟨hkept, hfirst.absent⟩
    · obtain ⟨hnew, habsent⟩ := hfresh other hother
      refine ⟨hnew, ?_⟩
      by_contra hthere
      exact hfirst.grows.present hthere habsent
  · refine List.pairwise_cons.mpr ⟨?_, hdistinct⟩
    intro other hother there hthere hequal
    rw [hnode] at hthere
    cases hthere
    exact hpresent (hfresh node (List.mem_filterMap.mpr ⟨other, hother, hequal⟩)).2
  · intro partitions pending hcover
    rw [List.filterMap_cons_some hnode]
    refine (hcovered partitions (node :: pending) (hfirst.covered partitions pending hcover)).mono ?_
    intro there hthere _
    simp only [List.mem_append, List.mem_cons, List.cons_append] at hthere ⊢
    tauto

theorem cloneDescriptors_cloned {table : List FileHandleV2} (hattached : Attached mem.s)
    (hopen : ∀ entry ∈ table, entry.free = false →
      ∃ source, mem.s.refers source = some (mem.s.internal entry))
    {cloned : List FileHandleV2 × Memory} (hclone : mem.cloneDescriptors table = some cloned) :
    Cloned mem.s cloned.2.s cloned.1 := by
  induction table generalizing mem cloned with
  | nil =>
      cases hclone
      exact .nil hattached
  | cons entry rest ih =>
      have hothers := fun other hother => hopen other (List.mem_cons_of_mem _ hother)
      rw [Memory.cloneDescriptors] at hclone
      split at hclone
      · obtain ⟨tail, htail, rfl⟩ := Option.map_eq_some_iff.mp hclone
        have hrest := ih hattached hothers htail
        exact hrest.skip rfl
      · rename_i hused
        obtain ⟨forked, hfork, hclone⟩ := Option.bind_eq_some_iff.mp hclone
        obtain ⟨tail, htail, rfl⟩ := Option.map_eq_some_iff.mp hclone
        obtain ⟨source, hsource⟩ := hopen entry List.mem_cons_self (by simpa using hused)
        -- a mount point that leads nowhere has nothing to fork
        have hsome : mem.s.internal entry ≠ none := by
          intro hnone
          have hmount := Option.map_eq_none_iff.mp hnone
          unfold Memory.internalFork at hfork
          rw [hmount] at hfork
          cases hfork
        obtain ⟨target, htarget⟩ := Option.ne_none_iff_exists'.mp hsome
        rw [htarget] at hsource
        have hpresent := hattached.chained.exclusive.present _ _ hsource
        obtain ⟨node, hnode, -, hbrings⟩ := internalFork_brings hattached htarget hpresent hfork
        have hlater : ∀ other ∈ rest, other.free = false →
            ∃ source, forked.2.s.refers source = some (forked.2.s.internal other) := by
          intro other hother hlive
          obtain ⟨source, hsource⟩ := hothers other hother hlive
          refine ⟨source, ?_⟩
          rw [hbrings.grows.kept source (by simp [hsource]), internal_congr hbrings.system.mountpoint]
          exact hsource
        have hrest := ih hbrings.attached hlater htail
        exact .cons hbrings hnode hrest

end EchidnaOS.Vfs
