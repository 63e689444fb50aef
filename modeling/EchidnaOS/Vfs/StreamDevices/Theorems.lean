import EchidnaOS.Vfs.StreamDevices

namespace EchidnaOS.Vfs.StreamDevices

open EchidnaOS.Lib.ByteStore EchidnaOS.Devfs

variable {s : System} {path name : CString} {driver : Driver} {type : IoType} {call : Call}

theorem namedDriver_name (hfound : namedDriver s name = some driver) : driver.name = name := by
  have hname := List.find?_some hfound
  exact (of_decide_eq_true hname).symm

theorem leadsTo_direct (s : System) (buffer : Store) (name : CString) :
    leadsTo s buffer (bytes ":://" ++ name) = (namedDriver s name).map .device := by
  have htake : (bytes ":://" ++ name).take 4 = bytes ":://" := rfl
  have hdrop : (bytes ":://" ++ name).drop 4 = name := rfl
  rw [leadsTo, if_pos htake, hdrop]

theorem returns_nil (hnone : wrapperCalls s driver type = []) :
    Returns s (.ioWrapper driver type) := by
  apply Acc.intro
  intro next hnext
  rw [Calls, hnone] at hnext
  cases hnext

-- The streams and the serial ttys are all that begin with an s.
theorem returns_of_head (hhead : driver.name.head? ≠ some 115) (type : IoType) :
    Returns s (.ioWrapper driver type) := by
  cases driver with
  | stdin => exact absurd rfl hhead
  | stdout => exact absurd rfl hhead
  | stderr => exact absurd rfl hhead
  | stty index => exact absurd rfl hhead
  | partition disk index =>
      apply Acc.intro
      intro next hnext
      rcases List.mem_pair.mp hnext with rfl | rfl <;> exact returns_nil rfl
  | _ => exact returns_nil rfl

-- A path that names a device directly, whose name does not begin with an s.
theorem returns_direct (hhead : name.head? ≠ some 115) (type : IoType) :
    Returns s (.vfs type (bytes ":://" ++ name)) := by
  apply Acc.intro
  intro next hnext
  obtain ⟨buffer, place, hplace, hcall⟩ := hnext
  rw [leadsTo_direct] at hplace
  obtain ⟨driver, hdriver, rfl⟩ := Option.map_eq_some_iff.mp hplace
  rw [List.mem_singleton.mp hcall]
  exact returns_of_head (by rwa [namedDriver_name hdriver]) type

theorem volume_device {buffer : Store} {dev : CString}
    (hplace : leadsTo s buffer path = some (.volume dev)) : dev = bytes ":://" ++ bytes "bd0p0" := by
  rw [leadsTo] at hplace
  split at hplace
  · obtain ⟨driver, -, hdevice⟩ := Option.map_eq_some_iff.mp hplace
    cases hdevice
  · obtain ⟨absolute, -, htranslate⟩ := Option.bind_eq_some_iff.mp hplace
    simp only [translate] at htranslate
    split at htranslate
    · cases htranslate
    · obtain ⟨mount, hmount, hvolume⟩ := Option.bind_eq_some_iff.mp htranslate
      obtain ⟨filesystem, hfilesystem, hvolume⟩ := Option.bind_eq_some_iff.mp hvolume
      rcases List.mem_pair.mp (List.mem_of_getElem? hmount) with rfl | rfl
      · cases hfilesystem
        cases hvolume
        rfl
      · cases hfilesystem
        obtain ⟨driver, -, hdevice⟩ := Option.map_eq_some_iff.mp hvolume
        cases hdevice

-- A path of the VFS returns when the wrappers that it can lead to do: the volume is a partition.
theorem returns_vfs (hwrappers : ∀ driver, Names s path driver → Returns s (.ioWrapper driver type)) :
    Returns s (.vfs type path) := by
  apply Acc.intro
  intro next hnext
  obtain ⟨buffer, place, hplace, hcall⟩ := hnext
  cases place with
  | device driver =>
      rw [List.mem_singleton.mp hcall]
      exact hwrappers driver ⟨buffer, hplace⟩
  | volume dev =>
      rw [volume_device hplace] at hcall
      rcases List.mem_pair.mp hcall with rfl | rfl
      · exact returns_direct (by decide) .read
      · exact returns_direct (by decide) .write

-- A serial tty works on a serial port.
theorem returns_stty (index : Nat) (type : IoType) : Returns s (.ioWrapper (.stty index) type) := by
  have hport : ∀ type, Returns s (.vfs type (numbered ":://com" index)) := by
    intro type
    exact @returns_direct s (numbered "com" index) (by simp [numbered, bytes]; decide) type
  apply Acc.intro
  intro next hnext
  cases type with
  | read =>
      rcases List.mem_pair.mp hnext with rfl | rfl
      · exact hport .read
      · exact hport .write
  | write =>
      rw [List.mem_singleton.mp hnext]
      exact hport .write

-- The wrappers that read or write a string of the task.
def Follows : Driver → IoType → Prop
  | .stdin, .read => True
  | .stdout, .write => True
  | .stderr, .write => True
  | _, _ => False

theorem returns_of_not_follows (hnot : ¬ Follows driver type) : Returns s (.ioWrapper driver type) := by
  cases driver with
  | stdin =>
      cases type with
      | read => exact absurd trivial hnot
      | write => exact returns_nil rfl
  | stdout =>
      cases type with
      | read => exact returns_nil rfl
      | write => exact absurd trivial hnot
  | stderr =>
      cases type with
      | read => exact returns_nil rfl
      | write => exact absurd trivial hnot
  | stty index => exact returns_stty index type
  | partition disk index =>
      apply Acc.intro
      intro next hnext
      rcases List.mem_pair.mp hnext with rfl | rfl <;> exact returns_nil rfl
  | _ => exact returns_nil rfl

-- One call deeper.
theorem Returns.next {next : Call} (hreturns : Returns s call) (hcalls : Calls s call next) :
    Returns s next := Acc.inv hreturns hcalls

theorem Names.calls (hnames : Names s path driver) (type : IoType) :
    Calls s (.vfs type path) (.ioWrapper driver type) := by
  obtain ⟨buffer, hplace⟩ := hnames
  exact ⟨buffer, _, hplace, List.mem_singleton.mpr rfl⟩

-- The first call is made below the second.
abbrev Below (s : System) : Call → Call → Prop := Relation.TransGen fun next call => Calls s call next

-- A call that comes back to itself does not return.
theorem not_returns_of_cycle (hcycle : Below s call call) : ¬ Returns s call := by
  intro hreturns
  have hacc := Acc.transGen hreturns
  induction hacc with
  | intro call _ ih => exact ih call hcycle hcycle hreturns

-- The string of a stream leads to another stream, whose wrapper follows its own.
theorem follows_step {next : Driver} {nextType : IoType}
    (hfollows : wrapperCalls s driver type = [.vfs nextType path]) (hnames : Names s path next) :
    Below s (.ioWrapper next nextType) (.ioWrapper driver type) := by
  have hstring : Calls s (.ioWrapper driver type) (.vfs nextType path) := by
    rw [Calls, hfollows]
    exact List.mem_singleton.mpr rfl
  exact .tail (.single (hnames.calls nextType)) hstring

-- A stream returns when every stream that its string leads to does.
theorem returns_stream {nextType : IoType} (hfollows : wrapperCalls s driver type = [.vfs nextType path])
    (hstreams : ∀ next, Names s path next → Follows next nextType →
      Returns s (.ioWrapper next nextType)) :
    Returns s (.ioWrapper driver type) := by
  apply Acc.intro
  intro call hcall
  rw [Calls, hfollows] at hcall
  rw [List.mem_singleton.mp hcall]
  apply returns_vfs
  intro next hnext
  by_cases hstream : Follows next nextType
  · exact hstreams next hnext hstream
  · exact returns_of_not_follows hstream

namespace NoCircle

theorem stdin_returns (hcircle : NoCircle s) : Returns s (.ioWrapper .stdin .read) := by
  apply returns_stream rfl
  intro next hnext hstream
  cases next with
  | stdin => exact absurd hnext hcircle.stdin
  | _ => cases hstream

theorem stdout_returns (hcircle : NoCircle s)
    (hstderr : Names s s.stdout .stderr → Returns s (.ioWrapper .stderr .write)) :
    Returns s (.ioWrapper .stdout .write) := by
  apply returns_stream rfl
  intro next hnext hstream
  cases next with
  | stdout => exact absurd hnext hcircle.stdout
  | stderr => exact hstderr hnext
  | _ => cases hstream

theorem stderr_returns (hcircle : NoCircle s)
    (hstdout : Names s s.stderr .stdout → Returns s (.ioWrapper .stdout .write)) :
    Returns s (.ioWrapper .stderr .write) := by
  apply returns_stream rfl
  intro next hnext hstream
  cases next with
  | stderr => exact absurd hnext hcircle.stderr
  | stdout => exact hstdout hnext
  | _ => cases hstream

-- Of stdout and stderr one is the end of the chain.
theorem wrapper_returns (hcircle : NoCircle s) (driver : Driver) (type : IoType) :
    Returns s (.ioWrapper driver type) := by
  by_cases hstream : Follows driver type
  · cases driver with
    | stdin =>
        cases type with
        | read => exact hcircle.stdin_returns
        | write => cases hstream
    | stdout =>
        cases type with
        | read => cases hstream
        | write =>
            apply hcircle.stdout_returns
            intro herror
            apply hcircle.stderr_returns
            intro hback
            exact absurd ⟨herror, hback⟩ hcircle.crossed
    | stderr =>
        cases type with
        | read => cases hstream
        | write =>
            apply hcircle.stderr_returns
            intro hback
            apply hcircle.stdout_returns
            intro herror
            exact absurd ⟨herror, hback⟩ hcircle.crossed
    | _ => cases hstream
  · exact returns_of_not_follows hstream

theorem returns (hcircle : NoCircle s) (call : Call) : Returns s call := by
  cases call with
  | vfs type path =>
      apply returns_vfs
      intro driver _
      exact hcircle.wrapper_returns driver type
  | ioWrapper driver type => exact hcircle.wrapper_returns driver type

end NoCircle

theorem StreamsReturn.noCircle (hreturns : StreamsReturn s) : NoCircle s where
  stdin hnames :=
    not_returns_of_cycle (follows_step rfl hnames) ((hreturns.stdin _ hnames).next (hnames.calls .read))
  stdout hnames :=
    not_returns_of_cycle (follows_step rfl hnames) ((hreturns.stdout _ hnames).next (hnames.calls .write))
  stderr hnames :=
    not_returns_of_cycle (follows_step rfl hnames) ((hreturns.stderr _ hnames).next (hnames.calls .write))
  crossed hboth := by
    obtain ⟨herror, hback⟩ := hboth
    have hdown : Below s (.ioWrapper .stderr .write) (.ioWrapper .stdout .write) :=
      follows_step rfl herror
    have hup : Below s (.ioWrapper .stdout .write) (.ioWrapper .stderr .write) :=
      follows_step rfl hback
    exact not_returns_of_cycle (hdown.trans hup) ((hreturns.stderr _ herror).next (herror.calls .write))

-- The streams return exactly when their strings make no circle, and then the whole recursion is
-- well founded.
theorem stream_devices_return_iff (s : System) :
    (StreamsReturn s ↔ NoCircle s) ∧
      (WellFounded (fun next call => Calls s call next) ↔ NoCircle s) := by
  have hstreams : (∀ call, Returns s call) → StreamsReturn s := fun hall =>
    ⟨fun path _ => hall _, fun path _ => hall _, fun path _ => hall _⟩
  refine ⟨⟨StreamsReturn.noCircle, fun hcircle => hstreams hcircle.returns⟩, ?_, ?_⟩
  · intro hwell
    exact (hstreams hwell.apply).noCircle
  · intro hcircle
    exact ⟨hcircle.returns⟩

theorem names_direct (hfound : namedDriver s name = some driver) :
    Names s (bytes ":://" ++ name) driver :=
  ⟨fun _ => 0, by rw [leadsTo_direct, hfound, Option.map_some]⟩

-- A task whose stdin is the stdin device.
def selfReader : System where
  drivers := [.stdin, .stdout, .stderr, .null, .zero]
  pwd := bytes "/"
  stdin := bytes ":://stdin"
  stdout := bytes ":://null"
  stderr := bytes ":://null"

theorem stdin_reads_itself : ¬ StreamsReturn selfReader := by
  intro hreturns
  have hnames : Names selfReader selfReader.stdin .stdin := names_direct (by decide)
  exact hreturns.noCircle.stdin hnames

end EchidnaOS.Vfs.StreamDevices
