import EchidnaOS.Vfs.Handles
import EchidnaOS.Vfs.Close

namespace EchidnaOS.Vfs

open EchidnaOS.Lib EchidnaOS.Lib.SlotTable EchidnaOS.Lib.Reference EchidnaOS.Devfs EchidnaOS.Echfs

variable {s next : State} {pid device : Nat} {handle : Int} {graph : Node → Option (Option Node)}
  {node : Node} {m : Mount} {path : Path} {flags : Nat}

-- No two open descriptors share a handle, and each handle of echfs has a device of its own.
structure Chained (graph : Node → Option (Option Node)) : Prop where
  exclusive : Exclusive graph
  devices : ∀ handle target, graph (.echfs handle) = some (some target) →
    ∃ device, graph target = some (some (.devfs device))

-- A node that is there and that nothing refers to yet.
structure Fresh (graph : Node → Option (Option Node)) (node : Node) : Prop where
  present : graph node ≠ none
  unreferred : ∀ source, graph source ≠ some (some node)

theorem Chained.insert (hchained : Chained graph) (habsent : graph node = none)
    {target : Option Node} (htarget : ∀ there, target = some there → Fresh graph there)
    (hdevice : ∀ handle there, node = .echfs handle → target = some there →
      ∃ device, graph there = some (some (.devfs device))) :
    Chained (Function.update graph node (some target)) ∧
      Fresh (Function.update graph node (some target)) node := by
  have hgraph := hchained.exclusive
  have hne : ∀ there, graph there ≠ none → there ≠ node := by
    intro there hthere heq
    exact hthere (heq ▸ habsent)
  constructor
  · constructor
    · cases target with
      | none => exact hgraph.addLeaf
      | some there =>
          have hfresh := htarget there rfl
          exact hgraph.add hfresh.present hfresh.unreferred
    · intro handle there hthere
      by_cases heq : Node.echfs handle = node
      · rw [heq, Function.update_self] at hthere
        obtain ⟨device, hdev⟩ := hdevice handle there heq.symm (Option.some.inj hthere)
        refine ⟨device, ?_⟩
        rw [Function.update_of_ne (hne there (by simp [hdev]))]
        exact hdev
      · rw [Function.update_of_ne heq] at hthere
        obtain ⟨device, hdev⟩ := hchained.devices handle there hthere
        refine ⟨device, ?_⟩
        rw [Function.update_of_ne (hne there (by simp [hdev]))]
        exact hdev
  · constructor
    · simp
    · intro source hsource
      by_cases heq : source = node
      · rw [heq, Function.update_self] at hsource
        exact (htarget node (Option.some.inj hsource)).present habsent
      · rw [Function.update_of_ne heq] at hsource
        exact hgraph.unreferred habsent source hsource

theorem Chained.without (hchained : Chained graph) (nodes : List Node)
    (hclosed : ∀ source target, graph source = some (some target) → target ∈ nodes → source ∈ nodes) :
    Chained (Reference.without graph (· ∈ nodes)) := by
  refine ⟨hchained.exclusive.without _ hclosed, ?_⟩
  intro handle target hrefers
  unfold Reference.without at hrefers ⊢
  by_cases hgone : Node.echfs handle ∈ nodes
  · rw [if_pos hgone] at hrefers
    cases hrefers
  · rw [if_neg hgone] at hrefers
    obtain ⟨device, hdevice⟩ := hchained.devices handle target hrefers
    refine ⟨device, ?_⟩
    rw [if_neg fun htarget => hgone (hclosed _ target hrefers htarget)]
    exact hdevice

structure Attached (s : State) : Prop where
  chained : Chained s.refers
  kernel : (s.kernel.taskTable 0).status = some .res
  device : s.mountpoint s.devMountpoint = some .devfs

-- The kernel task makes no call.
theorem isActive_user (hattached : Attached s) (hactive : s.kernel.isActive pid = true) :
    pid ≠ 0 ∧ (s.kernel.taskTable pid).status ≠ none := by
  have hstatus : (s.kernel.taskTable pid).status = some .active := of_decide_eq_true hactive
  constructor
  · rintro rfl
    rw [hattached.kernel] at hstatus
    cases hstatus
  · simp [hstatus]

theorem Attached.of_system (hattached : Attached s) (hsystem : SameSystem s next)
    (hchained : Chained next.refers) : Attached next where
  chained := hchained
  kernel := (hsystem.status 0).trans hattached.kernel
  device := by
    rw [hsystem.mountpoint, hsystem.devMountpoint]
    exact hattached.device

theorem SameNodes.attached (hnodes : SameNodes s next) (hattached : Attached s) : Attached next := by
  refine hattached.of_system hnodes.system ?_
  rw [hnodes.refers]
  exact hattached.chained

theorem Adds.attached {target : Option Node} (hadds : Adds s next node target) (hattached : Attached s)
    (htarget : ∀ there, target = some there → Fresh s.refers there)
    (hdevice : ∀ handle there, node = .echfs handle → target = some there →
      ∃ device, s.refers there = some (some (.devfs device))) :
    Attached next ∧ Fresh next.refers node := by
  obtain ⟨hchained, hfresh⟩ := hattached.chained.insert hadds.absent htarget hdevice
  rw [← hadds.refers] at hchained hfresh
  exact ⟨hattached.of_system hadds.system hchained, hfresh⟩

theorem Drops.attached {nodes : List Node} (hdrops : Drops s next nodes) (hattached : Attached s)
    (hclosed : ∀ source target, s.refers source = some (some target) → target ∈ nodes →
      source ∈ nodes) : Attached next := by
  refine hattached.of_system hdrops.system ?_
  rw [hdrops.refers]
  exact hattached.chained.without nodes hclosed

-- What opening a handle of a file system leaves.
structure Opened (s next : State) (node : Node) : Prop where
  system : SameSystem s next
  attached : Attached next
  fresh : Fresh next.refers node

theorem Attached.newDevice (hattached : Attached s) {entry : DevfsHandle} (hused : entry.free = false) :
    Opened s (devfsCreateHandle s entry).2 (.devfs (devfsCreateHandle s entry).1) := by
  have hadds := devfsCreateHandle_adds s hused
  obtain ⟨hnext, hfresh⟩ := hadds.attached hattached (by simp) (by simp)
  exact ⟨hadds.system, hnext, hfresh⟩

-- A descriptor for a handle that has just been opened.
theorem Attached.newDescriptor (hattached : Attached s)
    (hstatus : (s.kernel.taskTable pid).status ≠ none) {entry : FileHandleV2} {target : Node}
    (hused : entry.free = false) (htarget : s.internal entry = some target)
    (hfresh : Fresh s.refers target) :
    Opened s (s.createDescriptor pid entry).2 (.descriptor pid (s.createDescriptor pid entry).1) ∧
      (s.createDescriptor pid entry).2.refers (.descriptor pid (s.createDescriptor pid entry).1) =
        some (some target) := by
  have hadds := createDescriptor_adds hstatus hused
  rw [htarget] at hadds
  have hthere : ∀ there, some target = some there → Fresh s.refers there := by
    intro there heq
    exact Option.some.inj heq ▸ hfresh
  obtain ⟨hnext, hnew⟩ := hadds.attached hattached hthere (by simp)
  refine ⟨⟨hadds.system, hnext, hnew⟩, ?_⟩
  rw [hadds.refers, Function.update_self]

-- The device of a volume is opened for the kernel.
theorem Attached.vfsKopen (hattached : Attached s) (device : Nat) :
    ∃ handle : Int, (vfsKopen s device).1 = handle ∧
      Opened s (vfsKopen s device).2 (.descriptor 0 handle) ∧
      ∃ number, (vfsKopen s device).2.refers (.descriptor 0 handle) = some (some (.devfs number)) := by
  unfold Vfs.vfsKopen
  dsimp only
  generalize hentry : DevfsHandle.mk _ _ _ _ _ _ _ _ _ = entry
  have hused : entry.free = false := by rw [← hentry]
  obtain ⟨hsystem, hmiddle, hfresh⟩ := hattached.newDevice hused
  have hstatus : ((devfsCreateHandle s entry).2.kernel.taskTable 0).status ≠ none := by
    rw [hmiddle.kernel]
    simp
  have htarget : (devfsCreateHandle s entry).2.internal
      { mountpoint := s.devMountpoint, internalHandle := (devfsCreateHandle s entry).1 } =
        some (.devfs (devfsCreateHandle s entry).1) := by
    rw [internal_congr hsystem.mountpoint, State.internal, hattached.device]
    rfl
  obtain ⟨hopened, hrefers⟩ := hmiddle.newDescriptor hstatus rfl htarget hfresh
  exact ⟨_, rfl, ⟨hsystem.trans hopened.system, hopened.attached, hopened.fresh⟩, _, hrefers⟩

section Quiet

theorem addCached_quiet (s : State) (file : CachedFile) (reset : Bool) :
    Quiet s (s.addCached file reset).2 := by
  refine ⟨?_, rfl, rfl, rfl, rfl⟩
  rfl

theorem cacheFile_quiet {reset : Bool} {cached : Nat × State}
    (hcached : s.cacheFile m device path reset = some cached) : Quiet s cached.2 := by
  unfold State.cacheFile at hcached
  split at hcached
  · cases hcached
    exact .refl s
  · obtain ⟨file, -, rfl⟩ := Option.map_eq_some_iff.mp hcached
    exact addCached_quiet s file reset

theorem setDisk_quiet (s : State) (device : Nat) (disk : ByteStore.Store) : Quiet s (s.setDisk device disk) :=
  ⟨rfl, rfl, rfl, rfl, rfl⟩

theorem dropCached_quiet (s : State) (index : Nat) : Quiet s (s.dropCached index) := by
  refine ⟨?_, rfl, rfl, rfl, rfl⟩
  rfl

theorem echfsRemove_quiet {result : Int × State} (hresult : echfsRemove s m device path = some result) :
    Quiet s result.2 := by
  obtain ⟨removed, -, heq⟩ := Option.map_eq_some_iff.mp hresult
  rw [← heq]
  have hfound : ∀ index, Quiet s (s.dropCached index) := dropCached_quiet s
  cases hcached : s.findCached path with
  | none =>
      cases removed with
      | none => exact .refl s
      | some disk => exact setDisk_quiet s device disk
  | some index =>
      cases removed with
      | none => exact hfound index
      | some disk => exact (hfound index).trans (setDisk_quiet _ device disk)

theorem findOrCreate_quiet {found : Nat × State}
    (hfound : s.findOrCreate m device path flags = some (some found)) : Quiet s found.2 := by
  unfold State.findOrCreate at hfound
  split at hfound
  · cases hfound
    exact .refl s
  · split at hfound
    · cases hfound
    · obtain ⟨created, -, hcreated⟩ := Option.map_eq_some_iff.mp hfound
      obtain ⟨disk, -, rfl⟩ := Option.map_eq_some_iff.mp hcreated
      exact setDisk_quiet s device disk

theorem truncate_quiet {size : Nat} {ready : Nat × State}
    (hready : s.truncate m device path flags size = some ready) : Quiet s ready.2 := by
  unfold State.truncate at hready
  split at hready
  · cases hready
    exact .refl s
  · obtain ⟨removed, hremoved, hcreate⟩ := Option.bind_eq_some_iff.mp hready
    obtain ⟨created, -, rfl⟩ := Option.map_eq_some_iff.mp hcreate
    have hquiet := echfsRemove_quiet hremoved
    cases created with
    | none => exact hquiet
    | some disk => exact hquiet.trans (setDisk_quiet _ device disk)

end Quiet

theorem Quiet.attached (hquiet : Quiet s next) (hattached : Attached s) : Attached next :=
  hquiet.nodes.attached hattached

theorem Attached.openCached (hattached : Attached s) {size : Nat} {result : Int × State}
    (hresult : s.openCached m device path flags size = some result) :
    Opened s result.2 (.echfs result.1) := by
  obtain ⟨cached, hcached, rfl⟩ := Option.map_eq_some_iff.mp hresult
  dsimp only
  have hquiet := cacheFile_quiet hcached
  obtain ⟨number, hnumber, hopened, there, hdevice⟩ := (hquiet.attached hattached).vfsKopen device
  generalize hentry : EchfsHandle.mk _ _ _ _ _ _ _ _ _ = entry
  have hused : entry.free = false := by rw [← hentry]
  have hdev : entry.devHandle = number := by rw [← hentry, ← hnumber]
  have hadds := echfsCreateHandle_adds (Vfs.vfsKopen cached.2 device).2 hused
  rw [hdev] at hadds
  have htarget : ∀ target, some (Node.descriptor 0 number) = some target →
      Fresh (Vfs.vfsKopen cached.2 device).2.refers target ∧
        ∃ there, (Vfs.vfsKopen cached.2 device).2.refers target = some (some (.devfs there)) := by
    intro target heq
    cases heq
    exact ⟨hopened.fresh, there, hdevice⟩
  obtain ⟨hnext, hfresh⟩ := hadds.attached hopened.attached (fun target heq => (htarget target heq).1)
    (fun _ target _ heq => (htarget target heq).2)
  exact ⟨(hquiet.system.trans hopened.system).trans hadds.system, hnext, hfresh⟩

-- A call that opens returns -1, or a handle that nothing refers to.
structure OpensHandle (s : State) (handle : Int) (next : State) (target : Int → Node) : Prop where
  system : SameSystem s next
  attached : Attached next
  fresh : handle ≠ -1 → Fresh next.refers (target handle)

theorem Attached.echfsOpen (hattached : Attached s) {result : Int × State}
    (hresult : echfsOpen s m device path flags = some result) :
    OpensHandle s result.1 result.2 .echfs := by
  obtain ⟨found, hfound, hrest⟩ := Option.bind_eq_some_iff.mp hresult
  cases found with
  | none =>
      cases hrest
      exact ⟨.refl s, hattached, fun hne => absurd rfl hne⟩
  | some found =>
      obtain ⟨ready, hready, hopen⟩ := Option.bind_eq_some_iff.mp hrest
      have hquiet := (findOrCreate_quiet hfound).trans (truncate_quiet hready)
      obtain ⟨hsystem, hnext, hfresh⟩ := (hquiet.attached hattached).openCached hopen
      exact ⟨hquiet.system.trans hsystem, hnext, fun _ => hfresh⟩

theorem Attached.devfsOpen (hattached : Attached s) (path : Path) (flags : Nat) :
    OpensHandle s (devfsOpen s path flags).1 (devfsOpen s path flags).2 .devfs := by
  have hrefused : OpensHandle s (-1) s .devfs := ⟨.refl s, hattached, fun hne => absurd rfl hne⟩
  unfold Vfs.devfsOpen
  split
  · exact hrefused
  · split
    · exact hrefused
    · dsimp only
      generalize hentry : DevfsHandle.mk _ _ _ _ _ _ _ _ _ = entry
      have hused : entry.free = false := by rw [← hentry]
      obtain ⟨hsystem, hnext, hfresh⟩ := hattached.newDevice hused
      exact ⟨hsystem, hnext, fun _ => hfresh⟩

theorem Attached.vfsOpen (hattached : Attached s) (hstatus : (s.kernel.taskTable pid).status ≠ none)
    {mountpoint : Int} {result : Int × State}
    (hresult : vfsOpen s pid mountpoint path flags = some result) : Attached result.2 := by
  obtain ⟨opened, hopened, hresult⟩ := Option.map_eq_some_iff.mp hresult
  -- the descriptor, whichever file system opened the handle
  have hfinish : ∀ target : Int → Node, OpensHandle s opened.1 opened.2 target →
      s.internal { mountpoint := mountpoint, internalHandle := opened.1 } = some (target opened.1) →
      Attached result.2 := by
    intro target hopens htarget
    rw [← hresult]
    by_cases hret : opened.1 = -1
    · rw [if_pos hret]
      exact hopens.attached
    · rw [if_neg hret]
      rw [← internal_congr hopens.system.mountpoint] at htarget
      have hslot : (opened.2.kernel.taskTable pid).status ≠ none := by
        rw [hopens.system.status]
        exact hstatus
      exact (hopens.attached.newDescriptor hslot rfl htarget (hopens.fresh hret)).1.attached
  unfold State.internalOpen at hopened
  cases hmount : s.mountpoint mountpoint with
  | none =>
      rw [hmount] at hopened
      cases hopened
      rw [← hresult]
      exact hattached
  | some there =>
      rw [hmount] at hopened
      have hinternal : ∀ handle, s.internal { mountpoint := mountpoint, internalHandle := handle } =
          some (there.node handle) := by
        intro handle
        rw [State.internal, hmount]
        rfl
      cases there with
      | devfs =>
          cases hopened
          exact hfinish .devfs (hattached.devfsOpen path flags) (hinternal _)
      | echfs m device => exact hfinish .echfs (hattached.echfsOpen hopened) (hinternal _)

-- The kernel's descriptor of a device and the handle behind it.
theorem vfsKclose_drops {number : Int}
    (hrefers : s.refers (.descriptor 0 handle) = some (some (.devfs number)))
    (hpresent : s.refers (.devfs number) ≠ none) :
    ∃ closed, vfsKclose s handle = some closed ∧
      Drops s closed.2 [.descriptor 0 handle, .devfs number] := by
  have hopen : s.refers (.descriptor 0 handle) ≠ none := by
    rw [hrefers]
    simp
  have hinternal := descriptor_of_open hopen
  rw [hrefers] at hinternal
  obtain ⟨mountpoint, hmount, hnode⟩ := Option.map_eq_some_iff.mp (Option.some.inj hinternal).symm
  unfold vfsKclose
  rw [hmount]
  cases mountpoint with
  | echfs m device => cases hnode
  | devfs =>
      rw [Node.devfs.inj hnode]
      obtain ⟨hret, hdrops⟩ := devfsClose_drops hpresent
      have hmiddle : (devfsClose s number).2.refers (.descriptor 0 handle) ≠ none := by
        rw [hdrops.refers, without, if_neg (by simp)]
        exact hopen
      have hne : (devfsClose s number).1 ≠ -1 := by omega
      exact ⟨_, rfl, hdrops.cons (finishClose_drops hne hmiddle)⟩

theorem refers_devfs {number : Int} {target : Node} :
    s.refers (.devfs number) ≠ some (some target) := by
  intro hrefers
  obtain ⟨entry, -, hnone⟩ := Option.map_eq_some_iff.mp hrefers
  cases hnone

-- What goes with a descriptor that nothing refers to: the nodes that it leads to.
theorem vfsClose_drops (hattached : Attached s)
    (hroot : ∀ source, s.refers source ≠ some (some (.descriptor pid handle)))
    (hopen : s.refers (.descriptor pid handle) ≠ none) {result : Int × State}
    (hresult : vfsClose s pid handle = some result) :
    ∃ nodes, Drops s result.2 nodes ∧ ∀ source target, s.refers source = some (some target) →
      (source ∈ nodes ↔ target ∈ nodes) := by
  obtain ⟨closed, hclosed, rfl⟩ := Option.map_eq_some_iff.mp hresult
  have hexclusive := hattached.chained.exclusive
  have hself := descriptor_of_open hopen
  -- the descriptor goes last, once the file system has closed what it refers to
  have hfinish : ∀ nodes, closed.1 = 0 → Drops s closed.2 nodes →
      Node.descriptor pid handle ∉ nodes →
      Drops s (finishClose closed.2 pid handle closed.1).2 (.descriptor pid handle :: nodes) := by
    intro nodes hret hdrops hout
    have hkept : closed.2.refers (.descriptor pid handle) ≠ none := by
      rw [hdrops.refers, without, if_neg hout]
      exact hopen
    have hne : closed.1 ≠ -1 := by omega
    exact hdrops.cons (finishClose_drops hne hkept)
  unfold State.internalClose at hclosed
  cases hmount : s.mountpoint (s.descriptor pid handle).mountpoint with
  | none =>
      rw [hmount] at hclosed
      cases hclosed
  | some there =>
      rw [hmount] at hclosed
      rw [State.internal, hmount] at hself
      cases there with
      | devfs =>
          obtain ⟨hret, hdrops⟩ := devfsClose_drops (hexclusive.present _ _ hself)
          cases hclosed
          refine ⟨_, hfinish _ hret hdrops (by simp), ?_⟩
          intro source target hsource
          simp only [List.mem_cons, List.not_mem_nil, or_false]
          constructor
          · rintro (rfl | rfl)
            · rw [hself] at hsource
              cases hsource
              exact Or.inr rfl
            · exact absurd hsource refers_devfs
          · rintro (rfl | rfl)
            · exact absurd hsource (hroot source)
            · exact Or.inl (hexclusive.unique _ _ _ hsource hself)
      | echfs m device =>
          obtain ⟨target, htarget⟩ := Option.ne_none_iff_exists'.mp (hexclusive.present _ _ hself)
          obtain ⟨entry, hentry, -⟩ := Option.map_eq_some_iff.mp htarget
          obtain ⟨hat, hlive⟩ := inUse_eq_some.mp hentry
          have hdescriptor : s.refers (.echfs (s.descriptor pid handle).internalHandle) =
              some (some (.descriptor 0 entry.devHandle)) := by
            rw [State.refers, hentry]
            rfl
          obtain ⟨number, hdevice⟩ := hattached.chained.devices _ _ hdescriptor
          obtain ⟨kernel, hkernel, hdrops⟩ := vfsKclose_drops hdevice (hexclusive.present _ _ hdevice)
          have hother : Node.descriptor pid handle ≠ .descriptor 0 entry.devHandle := by
            intro heq
            exact hroot _ (heq ▸ hdescriptor)
          dsimp only at hclosed
          rw [echfsClose_live hat hlive, hkernel] at hclosed
          cases hclosed
          rw [← vfsKclose_echfsHandles hkernel] at hat
          refine ⟨_, hfinish _ rfl (hdrops.cons (echfsFree_drops hat)) (by simpa using hother), ?_⟩
          intro source target hsource
          simp only [List.mem_cons, List.not_mem_nil, or_false]
          constructor
          · rintro (rfl | rfl | rfl | rfl)
            · rw [hself] at hsource
              cases hsource
              exact Or.inr (Or.inl rfl)
            · rw [hdescriptor] at hsource
              cases hsource
              exact Or.inr (Or.inr (Or.inl rfl))
            · rw [hdevice] at hsource
              cases hsource
              exact Or.inr (Or.inr (Or.inr rfl))
            · exact absurd hsource refers_devfs
          · rintro (rfl | rfl | rfl | rfl)
            · exact absurd hsource (hroot source)
            · exact Or.inl (hexclusive.unique _ _ _ hsource hself)
            · exact Or.inr (Or.inl (hexclusive.unique _ _ _ hsource hdescriptor))
            · exact Or.inr (Or.inr (Or.inl (hexclusive.unique _ _ _ hsource hdevice)))

theorem Attached.vfsClose (hattached : Attached s) (hpid : pid ≠ 0)
    (hopen : s.refers (.descriptor pid handle) ≠ none) {result : Int × State}
    (hresult : vfsClose s pid handle = some result) : Attached result.2 := by
  have hroot : ∀ source, s.refers source ≠ some (some (.descriptor pid handle)) := by
    intro source hsource
    exact hpid (refers_descriptor hsource).1
  obtain ⟨nodes, hdrops, hclosed⟩ := vfsClose_drops hattached hroot hopen hresult
  exact hdrops.attached hattached fun source target hsource => (hclosed source target hsource).mpr

end EchidnaOS.Vfs
