import EchidnaOS.Vfs.Streams.Load

namespace EchidnaOS.Vfs

open EchidnaOS.Lib EchidnaOS.Lib.SlotTable EchidnaOS.Klib EchidnaOS.Devfs EchidnaOS.Echfs

variable {s middle next : State} {mem later : Memory} {child pid flags : Nat} {file program : Target}

-- What opening a stream for another task leaves of the kernel.
structure OpensStream (s next : State) : Prop where
  keeps : Keeps s next
  handles : KeepsHandles s next
  system : SameSystem s next

theorem OpensStream.refl (s : State) : OpensStream s s := ⟨⟨fun _ _ h => h, rfl⟩, .refl s, .refl s⟩

theorem OpensStream.trans (hfirst : OpensStream s middle) (hsecond : OpensStream middle next) :
    OpensStream s next :=
  ⟨hfirst.keeps.trans hsecond.keeps, hfirst.handles.trans hsecond.handles, hfirst.system.trans hsecond.system⟩

theorem KernelOpens.stream (hopens : KernelOpens s next) : OpensStream s next :=
  ⟨hopens.keeps, hopens.kept.handles, hopens.system⟩

-- A task with a number of its own and an entry for it.
structure Running (s : State) (child : Nat) : Prop where
  other : child ≠ 0
  status : (s.kernel.taskTable child).status ≠ none
  kernel : (s.kernel.taskTable 0).status ≠ none

theorem Running.of_system (hrunning : Running s child) (hsystem : SameSystem s next) : Running next child := by
  refine ⟨hrunning.other, ?_, ?_⟩
  · rw [hsystem.status]
    exact hrunning.status
  · rw [hsystem.status]
    exact hrunning.kernel

-- The descriptor of the kernel goes to the task, behind all that it has.
theorem handOver_opens {descriptor : FileHandleV2} {handle : Int} (hrunning : Running mem.s child)
    (hused : ∀ entry ∈ mem.s.table child, entry.free = false)
    (hdescriptor : inUse (·.free) (mem.s.table 0) handle = some descriptor) {created : Int × Memory}
    (hcreate : mem.createDescriptor child descriptor = some created) :
    (created.2.freeDescriptor handle).s.table child = mem.s.table child ++ [descriptor] ∧
    KeepsHandles mem.s (created.2.freeDescriptor handle).s ∧
    KernelCloses mem.s (created.2.freeDescriptor handle).s [handle] := by
  obtain ⟨-, hstate⟩ := createDescriptor_state hcreate
  have hnew := createDescriptor_table hrunning.status descriptor
  rw [← hstate] at hnew
  have hsame : created.2.s.devices = mem.s.devices ∧ created.2.s.disks = mem.s.disks := by
    rw [hstate]
    exact ⟨rfl, rfl⟩
  have htable : created.2.s.table 0 = mem.s.table 0 := by
    rw [hnew.table, Function.update_of_ne hrunning.other.symm]
  have hat := (inUse_eq_some.mp hdescriptor).1
  rw [← htable] at hat
  have hfree := setTable_table (status_of_entryAt hat) (setAt (created.2.s.table 0) handle
    { created.2.s.descriptor 0 handle with free := true })
  have hcloses := setTable_closes hat { created.2.s.descriptor 0 handle with free := true }
  refine ⟨?_, hnew.handles.trans hfree.handles, ?_⟩
  · have hfull : (mem.s.table child).findIdx? (·.free) = none := by
      simpa using hused
    unfold Memory.freeDescriptor
    dsimp only
    rw [hfree.table, Function.update_of_ne hrunning.other, hnew.table, Function.update_self,
      SlotTable.create, hfull]
  · refine ⟨hnew.system.trans hcloses.system, hcloses.devices.trans hsame.1, hcloses.disks.trans hsame.2, ?_⟩
    intro other hother
    rw [← htable]
    exact hcloses.descriptors other hother

theorem OpenOn.append_used {descriptor : FileHandleV2} (hon : OpenOn next descriptor file flags)
    (hused : ∀ entry ∈ s.table child, entry.free = false)
    (htable : next.table child = s.table child ++ [descriptor]) :
    ∀ entry ∈ next.table child, entry.free = false := by
  intro entry hentry
  rw [htable, List.mem_append, List.mem_singleton] at hentry
  rcases hentry with hentry | rfl
  · exact hused entry hentry
  · exact hon.used

-- A stream that was opened is the last descriptor of the task.
theorem openStream_opens (hrunning : Running mem.s child)
    (hused : ∀ entry ∈ mem.s.table child, entry.free = false) (hplain : Plain flags)
    (hopen : mem.openStream child file flags = some later) :
    OpensStream mem.s later.s ∧ ∃ descriptor, later.s.table child = mem.s.table child ++ [descriptor] ∧
      OpenOn later.s descriptor file flags := by
  obtain ⟨opened, hopened, hopen⟩ := Option.bind_eq_some_iff.mp hopen
  split at hopen
  · cases hopen
  rename_i hnumber
  obtain ⟨created, hcreate, rfl⟩ := Option.map_eq_some_iff.mp hopen
  rcases kopen_names hrunning.kernel hplain hopened with ⟨-, rfl⟩ | ⟨-, hopened⟩
  · exact absurd rfl hnumber
  obtain ⟨descriptor, hdescriptor, hon, -⟩ := hopened.entry
  have hopens := hopened.opens
  have hthere : opened.2.s.descriptor 0 opened.1 = descriptor := by
    rw [State.descriptor, (inUse_eq_some.mp hdescriptor).1, Option.getD_some]
  have htable : opened.2.s.table child = mem.s.table child := by
    rw [State.table, State.table, hopens.tasks child hrunning.other]
  rw [hthere] at hcreate
  rw [← htable] at hused
  obtain ⟨happend, hhandles, hcloses⟩ :=
    handOver_opens (hrunning.of_system hopens.system) hused hdescriptor hcreate
  rw [htable] at happend
  refine ⟨⟨⟨?_, ?_⟩, hopens.kept.handles.trans hhandles, hopens.system.trans hcloses.system⟩,
    descriptor, happend, hon.mono hhandles⟩
  · intro number old hold
    have hne : number ∉ [opened.1] := by
      rintro hmem
      obtain rfl := List.mem_singleton.mp hmem
      simp [hopened.absent] at hold
    rw [hcloses.descriptors number hne]
    exact hopens.kept.descriptors 0 number old hold
  · rw [names_of_disks hcloses.system.mountpoint hcloses.devices hcloses.disks]
    exact hopens.keeps.names

theorem openEach_opens {streams : List (Target × Nat)} (hrunning : Running mem.s child)
    (hused : ∀ entry ∈ mem.s.table child, entry.free = false) (hplain : ∀ use ∈ streams, Plain use.2)
    (hopen : mem.openEach child streams = some later) :
    OpensStream mem.s later.s ∧ ∃ descriptors, later.s.table child = mem.s.table child ++ descriptors ∧
      List.Forall₂ (fun descriptor use => OpenOn later.s descriptor use.1 use.2) descriptors streams := by
  induction streams generalizing mem with
  | nil =>
      cases hopen
      exact ⟨.refl _, [], by simp, .nil⟩
  | cons use rest ih =>
      rw [List.forall_mem_cons] at hplain
      obtain ⟨next, hfirst, hrest⟩ := Option.bind_eq_some_iff.mp hopen
      obtain ⟨hopens, descriptor, htable, hon⟩ := openStream_opens hrunning hused hplain.1 hfirst
      have hnext := hon.append_used hused htable
      obtain ⟨hlater, descriptors, happend, hall⟩ :=
        ih (hrunning.of_system hopens.system) hnext hplain.2 hrest
      refine ⟨hopens.trans hlater, descriptor :: descriptors, ?_, .cons (hon.mono hlater.handles) hall⟩
      rw [happend, htable, List.append_assoc, List.singleton_append]

-- An open of the kernel returns an index of its table when the path leads somewhere.
theorem kopen_inside_iff (hkernel : (mem.s.kernel.taskTable 0).status ≠ none) (hplain : Plain flags)
    {result : Int × Memory} (hopen : mem.vfsOpen 0 file.mountpoint file.path flags = some result) :
    entryAt (result.2.s.table 0) result.1 ≠ none ↔ mem.s.names file = true := by
  rcases kopen_names hkernel hplain hopen with ⟨hnames, rfl⟩ | ⟨hnames, hopened⟩
  · simp [hnames, entryAt]
  · obtain ⟨descriptor, hdescriptor, -⟩ := hopened.entry
    simp [hnames, (inUse_eq_some.mp hdescriptor).1]

theorem streamUses_inside_iff {streams : List (Target × Nat)} (hrunning : Running mem.s child)
    (hused : ∀ entry ∈ mem.s.table child, entry.free = false) (hplain : ∀ use ∈ streams, Plain use.2) :
    (∀ use ∈ mem.streamUses child streams, entryAt (use.state.s.table 0) use.handle ≠ none) ↔
      ∀ use ∈ mem.streamUses child streams, mem.s.names use.file = true := by
  induction streams generalizing mem with
  | nil => simp [Memory.streamUses]
  | cons use rest ih =>
      rw [List.forall_mem_cons] at hplain
      unfold Memory.streamUses
      cases hopen : mem.vfsOpen 0 use.1.mountpoint use.1.path use.2 with
      | none => simp
      | some opened =>
          dsimp only
          rw [List.forall_mem_cons, List.forall_mem_cons, kopen_inside_iff hrunning.kernel hplain.1 hopen]
          refine and_congr_right fun _ => ?_
          cases hnext : mem.openStream child use.1 use.2 with
          | none => simp
          | some next =>
              obtain ⟨hopens, descriptor, htable, hon⟩ := openStream_opens hrunning hused hplain.1 hnext
              have hfull := hon.append_used hused htable
              dsimp only
              rw [ih (hrunning.of_system hopens.system) hfull hplain.2, hopens.keeps.names]

-- A program that exists is opened for the kernel without a look at more than its size.
theorem programUses_inside (hattached : Attached mem.s) {use : KernelUse} (huse : use ∈ mem.programUses program) :
    mem.s.names use.file = true ∧ entryAt (use.state.s.table 0) use.handle ≠ none := by
  unfold Memory.programUses at huse
  cases hsize : mem.programSize program with
  | none => simp [hsize] at huse
  | some size =>
      obtain ⟨heap, halloc⟩ := alloc_state mem (programPages size * PAGE_SIZE % 2 ^ 32)
      simp only [hsize] at huse
      generalize mem.alloc (programPages size * PAGE_SIZE % 2 ^ 32) = base at huse halloc
      have hnames : mem.s.names program = true := by
        unfold Memory.programSize at hsize
        unfold State.names
        split at hsize
        · rename_i hmount
          simp [hmount, hsize]
        · cases hsize
      have hthere : base.2.s.names program = true := by
        rw [halloc]
        exact hnames
      have hkernel : (base.2.s.kernel.taskTable 0).status ≠ none := by
        simp [halloc, hattached.kernel]
      split at huse
      · cases huse
      · cases hopen : base.2.vfsOpen 0 program.mountpoint program.path O_RDWR with
        | none => simp [hopen] at huse
        | some opened =>
            rw [hopen, List.mem_singleton] at huse
            rw [huse]
            exact ⟨hnames, (kopen_inside_iff hkernel (by decide) hopen).mpr hthere⟩

-- The streams that a launch opens, once the task is there.
theorem opens_plain (streams : Streams) : ∀ use ∈ streams.opens, Plain use.2 := by
  simp only [Streams.opens, List.forall_mem_cons, List.not_mem_nil, false_imp_iff, implies_true, and_true]
  decide

theorem CreatedTask.running (hcreated : CreatedTask s next child)
    (hkernel : (next.kernel.taskTable 0).status ≠ none) : Running next child :=
  ⟨hcreated.kernel, hcreated.status, hkernel⟩

theorem CreatedTask.used (hcreated : CreatedTask s next child) :
    ∀ entry ∈ next.table child, entry.free = false := by
  simp [hcreated.table]

theorem kernelUses_inside_iff (hattached : Attached mem.s) (hprogram : ProgramOk mem.s program) (info : TaskInfo)
    (streams : Streams) :
    (∀ use ∈ mem.kernelUses pid info program streams, entryAt (use.state.s.table 0) use.handle ≠ none) ↔
      ∀ use ∈ mem.kernelUses pid info program streams, mem.s.names use.file = true := by
  unfold Memory.kernelUses
  rw [List.forall_mem_append, List.forall_mem_append]
  refine and_congr ?_ ?_
  · exact iff_of_true (fun use huse => (programUses_inside hattached huse).2)
      (fun use huse => (programUses_inside hattached huse).1)
  · cases hcreate : mem.createLaunched pid info program with
    | none => simp
    | some created =>
        obtain ⟨number, created⟩ := created
        obtain ⟨hkeeps, hkernel, -, htask⟩ := createLaunched_creates hattached hprogram hcreate
        cases number with
        | none => simp
        | some there =>
            have hcreated := htask there.1 there.2 rfl
            rw [← hkeeps.names]
            exact streamUses_inside_iff (hcreated.running hkernel) hcreated.used (opens_plain streams)

-- What the launch leaves when it returns, whatever the paths name.
theorem execute_keeps (hattached : Attached mem.s) (hprogram : ProgramOk mem.s program) {info : TaskInfo}
    {streams : Streams} {number : Option Nat}
    (hexecute : mem.execute pid info program streams = some (number, later)) :
    Keeps mem.s later.s ∧
    (number = none → ∀ other, (later.s.kernel.taskTable other).status =
      (mem.s.kernel.taskTable other).status) ∧
    ∀ child, number = some child → Launched mem later child streams := by
  obtain ⟨⟨created, start⟩, hcreate, hopen⟩ := Option.bind_eq_some_iff.mp hexecute
  obtain ⟨hkeeps, hkernel, hfailed, htask⟩ := createLaunched_creates hattached hprogram hcreate
  cases created with
  | none =>
      cases hopen
      exact ⟨hkeeps, fun _ => hfailed rfl, by simp⟩
  | some there =>
      have hcreated := htask there.1 there.2 rfl
      obtain ⟨opened, hopen, hlater⟩ := Option.map_eq_some_iff.mp hopen
      obtain ⟨hopens, descriptors, htable, hall⟩ :=
        openEach_opens (hcreated.running hkernel) hcreated.used (opens_plain streams) hopen
      -- the arguments go into the memory of the task
      have hquiet : Quiet opened.s { opened.s with
          kernel.heap.mem := marshalArgv opened.s.kernel.heap.mem there.2 info.argv } :=
        ⟨rfl, rfl, rfl, rfl, rfl⟩
      cases hlater
      refine ⟨hkeeps.trans (hopens.keeps.trans ⟨hquiet.kept.descriptors 0, rfl⟩), by simp, ?_⟩
      intro child hchild
      cases hchild
      rw [hcreated.table, List.nil_append] at htable
      refine ⟨hcreated.free, ?_⟩
      cases hall with
      | cons hstdin hall => cases hall with
        | cons hstdout hall => cases hall with
          | cons hstderr hall =>
              cases hall
              exact ⟨_, _, _, htable, hstdin.mono hquiet.kept.handles, hstdout.mono hquiet.kept.handles,
                hstderr.mono hquiet.kept.handles⟩

theorem launch_has_streams_iff (hattached : Attached mem.s) (hprogram : ProgramOk mem.s program) (info : TaskInfo)
    (streams : Streams) :
    LaunchesRight mem pid info program streams ↔
      ∀ use ∈ mem.kernelUses pid info program streams, mem.s.names use.file = true := by
  rw [← kernelUses_inside_iff hattached hprogram info streams]
  constructor
  · exact fun hright => hright.inside
  · intro hinside
    refine ⟨hinside, ?_, ?_, ?_⟩
    · intro number later hexecute
      exact (execute_keeps hattached hprogram hexecute).1.descriptors
    · intro later hexecute
      exact (execute_keeps hattached hprogram hexecute).2.1 rfl
    · intro child later hexecute
      exact (execute_keeps hattached hprogram hexecute).2.2 child rfl

theorem b_ne_nul : (98 : UInt8) ≠ 0 := by decide

def deviceA : Target := ⟨0, pathA⟩
def missingB : Target := ⟨0, rootPath 98 b_ne_nul⟩

-- Three times the device /a.
theorem launch_has_device_streams : ∃ start, booted = some start ∧
    ((start.execute 0 plainInfo ⟨1, pathA⟩ ⟨deviceA, deviceA, deviceA⟩).any fun result =>
      result.1 = some 1) = true ∧
    LaunchesRight start 0 plainInfo ⟨1, pathA⟩ ⟨deviceA, deviceA, deviceA⟩ := by
  have hrun : booted.any (fun start =>
      ((start.execute 0 plainInfo ⟨1, pathA⟩ ⟨deviceA, deviceA, deviceA⟩).any fun result =>
        result.1 = some 1) ∧
      (start.kernelUses 0 plainInfo ⟨1, pathA⟩ ⟨deviceA, deviceA, deviceA⟩).all (fun use =>
        start.s.names use.file) ∧ start.s.cachedFilesPtr = 0) = true := by
    decide +kernel
  obtain ⟨start, hboot, hstart⟩ := (Option.any_eq_true _ _).mp hrun
  obtain ⟨hlaunched, hnames, hcached⟩ := of_decide_eq_true hstart
  have hprogram : ProgramOk start.s ⟨1, pathA⟩ := by
    intro m device slot hmount hfound
    simp [State.findCached, hcached] at hfound
  exact ⟨start, hboot, hlaunched,
    (launch_has_streams_iff (booted_released hboot).1 hprogram plainInfo _).mpr (List.all_eq_true.mp hnames)⟩

-- The device /b does not exist, and the number that its open returns is used all the same.
theorem missing_stdin_indexes_outside : ∃ start, booted = some start ∧ Attached start.s ∧
    start.programSize ⟨1, pathA⟩ ≠ none ∧
    ¬LaunchesRight start 0 plainInfo ⟨1, pathA⟩ ⟨missingB, deviceA, deviceA⟩ := by
  have hrun : booted.any (fun start =>
      (start.programSize ⟨1, pathA⟩).isSome ∧
      (start.kernelUses 0 plainInfo ⟨1, pathA⟩ ⟨missingB, deviceA, deviceA⟩).any (fun use =>
        (entryAt (use.state.s.table 0) use.handle).isNone)) = true := by
    decide +kernel
  obtain ⟨start, hboot, hstart⟩ := (Option.any_eq_true _ _).mp hrun
  obtain ⟨hsize, houtside⟩ := of_decide_eq_true hstart
  obtain ⟨use, huse, hnone⟩ := List.any_eq_true.mp houtside
  refine ⟨start, hboot, (booted_released hboot).1, Option.isSome_iff_ne_none.mp hsize, ?_⟩
  intro hright
  exact hright.inside use huse (Option.isNone_iff_eq_none.mp hnone)

end EchidnaOS.Vfs
