import EchidnaOS.Klib.Heap.Theorems
import EchidnaOS.Lib.PointerArray
import EchidnaOS.Task.Step

namespace EchidnaOS

open EchidnaOS.Lib EchidnaOS.Lib.ByteStore EchidnaOS.Lib.PointerArray EchidnaOS.Klib

-- A string of the caller, and what kstrcpy finds at its pointer: the copy is as long as the
-- caller's string, but is made from the same address without the base of the caller.
structure Passed where
  string : CString
  copied : CString
  fits : copied.length + 1 ≤ divRoundup (string.length + 1) PAGE_SIZE * PAGE_SIZE

def Passed.arg (passed : Passed) : ExecString := ⟨passed.string.length, passed.copied, passed.fits⟩

-- The heap after the copies to temporary blocks.
def copiedHeap : Heap → List Passed → Heap
  | heap, [] => heap
  | heap, arg :: rest =>
      let tmp := kalloc heap (arg.string.length + 1)
      copiedHeap { tmp.2 with mem := write tmp.2.mem tmp.1 (arg.copied ++ [0]) } rest

-- What the loop over an array of the caller finds. `caller` is the memory when the call is made.
def FoundIn (caller : Store) (base : Nat) : Heap → Nat → List Passed → Prop
  | _, array, [] => word caller array = 0
  | heap, array, arg :: rest =>
      let tmp := kalloc heap (arg.string.length + 1)
      word caller array ≠ 0 ∧ StringAt caller (base + word caller array) arg.string ∧
        StringAt tmp.2.mem (word caller array) arg.copied ∧
          FoundIn caller base { tmp.2 with mem := write tmp.2.mem tmp.1 (arg.copied ++ [0]) }
            (array + 4) rest

def tmpArrays (heap : Heap) : Heap := (kalloc (kalloc heap 1024).2 1024).2

def execveImage (k : Kernel) (args envs : List Passed) (file : ProgramFile) : Nat × Heap :=
  kalloc (execveTemporaries k.heap (args.map Passed.arg) (envs.map Passed.arg)).2
    (programPages file.size * PAGE_SIZE % 2 ^ 32)

-- A call of execve by a task, with its arrays at these addresses of its own. No allocation fails.
structure ExecveCall (k : Kernel) (current address : Nat) (task : Task) (argvPtr envpPtr : Nat)
    (args envs : List Passed) (file : ProgramFile) : Prop where
  slot : k.taskTable current = .task address task
  argv : FoundIn k.heap.mem task.base (tmpArrays k.heap) (task.base + argvPtr) args
  envp : FoundIn k.heap.mem task.base (copiedHeap (tmpArrays k.heap) args) (task.base + envpPtr) envs
  tmpArgv : 0 ∉ (execveTemporaries k.heap (args.map Passed.arg) (envs.map Passed.arg)).1.argvStrings
  tmpEnvp : 0 ∉ (execveTemporaries k.heap (args.map Passed.arg) (envs.map Passed.arg)).1.envpStrings
  image : (execveImage k args envs file).1 ≠ 0

-- What the new image is to hold.
structure PassesOn (mem : Store) (base : Nat) (args envs : List Passed) : Prop where
  argc : word mem (base + 0x1000) = args.length
  argv : Decodes mem base (base + 0x1010) (args.map Passed.string)
  envp : Decodes mem base (base + 0x1020) (envs.map Passed.string)

-- The strings are found at their own address, and the array of the environment, which begins at
-- the fifth pointer of argv, has there what argv has.
structure FoundUnbased (args envs : List Passed) : Prop where
  argv : ∀ arg ∈ args.take 4, arg.copied = arg.string
  envp : ∀ env ∈ envs, env.copied = env.string
  overlap : args.length < 4 ∨ (args.drop 4).map Passed.string = envs.map Passed.string

variable {k : Kernel} {current address base index limit argvPtr envpPtr array : Nat} {task : Task}
  {args envs passed : List Passed} {file : ProgramFile} {mem caller : Store} {heap : Heap}
  {texts : List CString}

theorem copyArgv_eq : copyArgv base index limit texts mem =
    marshal base (base + 0x1010 + 4 * index) limit texts mem := by
  induction texts generalizing index limit mem with
  | nil => rfl
  | cons arg rest ih =>
      rw [copyArgv, marshal, ih]
      congr 1

theorem copyEnvp_eq : copyEnvp base index limit texts mem =
    marshal base (base + 0x1020 + 4 * index) limit texts mem := by
  induction texts generalizing index limit mem with
  | nil => rfl
  | cons arg rest ih =>
      rw [copyEnvp, marshal, ih]
      congr 1

theorem copyStrings_length (heap : Heap) (strings : List ExecString) :
    (copyStrings heap strings).1.length = strings.length := by
  induction strings generalizing heap with
  | nil => rfl
  | cons arg rest ih => simp [copyStrings, ih]

-- Where no copy failed, the loop over the copies goes through all of them.
theorem liveStrings_all {ptrs : List Nat} {strings : List ExecString}
    (hlength : ptrs.length = strings.length) (hnonzero : 0 ∉ ptrs) :
    liveStrings ptrs strings = strings.map (·.copied) := by
  induction ptrs generalizing strings with
  | nil =>
      cases strings with
      | nil => rfl
      | cons arg rest => simp at hlength
  | cons ptr ptrs ih =>
      cases strings with
      | nil => simp at hlength
      | cons arg rest =>
          obtain ⟨hptr, hptrs⟩ := not_or.mp (mt List.mem_cons.mpr hnonzero)
          have hrest := ih (by simpa using hlength) hptrs
          simp only [liveStrings, List.zip_cons_cons] at hrest ⊢
          rw [List.takeWhile_cons_of_pos (by simpa using Ne.symm hptr), List.map_cons, hrest,
            List.map_cons]

theorem freeTemporaries_mem (heap : Heap) (tmp : Temporaries) (prevBase : Nat) :
    (freeTemporaries heap tmp prevBase).mem = heap.mem := by
  have hall : ∀ (ptrs : List Nat) (heap : Heap), (kfreeAll heap ptrs).mem = heap.mem := by
    intro ptrs
    induction ptrs with
    | nil => exact fun _ => rfl
    | cons ptr rest ih => exact fun heap => (ih _).trans (kfree_mem heap ptr)
  simp [freeTemporaries, hall]

-- The memory that the call leaves: the two arrays are the last writes to it.
theorem ExecveCall.mem_eq (hcall : ExecveCall k current address task argvPtr envpPtr args envs file)
    (hargc : args.length < 256) (henvc : envs.length < 256) (load : List Request) :
    ∃ before : Store, (execve k current (args.map Passed.arg) (envs.map Passed.arg) (some file) load).heap.mem =
      marshal (execveImage k args envs file).1 ((execveImage k args envs file).1 + 0x1020) 0x8000
        (envs.map Passed.copied)
        (marshal (execveImage k args envs file).1 ((execveImage k args envs file).1 + 0x1010) 0x4000
          (args.map Passed.copied)
          (write before ((execveImage k args envs file).1 + 0x1000) (leBytes 4 args.length))) := by
  have htake : ∀ {passed : List Passed}, passed.length < 256 →
      (passed.map Passed.arg).take 256 = passed.map Passed.arg := by
    intro passed hlength
    exact List.take_of_length_le (by rw [List.length_map]; omega)
  have hlive : ∀ {ptrs : List Nat} {passed : List Passed}, ptrs.length = passed.length → 0 ∉ ptrs →
      liveStrings ptrs (passed.map Passed.arg) = passed.map Passed.copied := by
    intro ptrs passed hlength hnonzero
    rw [liveStrings_all (by simpa using hlength) hnonzero, List.map_map]
    rfl
  have hargv := hcall.tmpArgv
  have henvp := hcall.tmpEnvp
  simp only [execve, hcall.slot, execveLoad, freeTemporaries_mem, copyArgv_eq, copyEnvp_eq, execveImage]
  rw [hlive _ hargv, hlive _ henvp, htake hargc, List.length_map]
  · exact ⟨_, rfl⟩
  · simp [execveTemporaries, copyStrings_length, htake henvc]
  · simp [execveTemporaries, copyStrings_length, htake hargc]

theorem FoundIn.ends (hfetched : FoundIn caller base heap array passed) :
    ∀ arg ∈ passed, 0 ∉ arg.string ∧ 0 ∉ arg.copied := by
  induction passed generalizing heap array with
  | nil => simp
  | cons arg rest ih =>
      obtain ⟨-, hstring, hcopied, hrest⟩ := hfetched
      exact List.forall_mem_cons.mpr ⟨⟨hstring.ends, hcopied.ends⟩, ih hrest⟩

-- A copy is at most a page longer than the string that it was allocated for.
theorem copied_bytes_le (passed : List Passed) : stringBytes (passed.map Passed.copied) ≤
    stringBytes (passed.map Passed.string) + PAGE_SIZE * passed.length := by
  induction passed with
  | nil => simp
  | cons arg rest ih =>
      have hfits := arg.fits
      simp only [List.map_cons, stringBytes_cons, List.length_cons, divRoundup, PAGE_SIZE] at *
      omega

-- The arrays in the image, whatever the memory before.
theorem passesOn_iff (hargs : ∀ arg ∈ args, 0 ∉ arg.copied) (henvs : ∀ env ∈ envs, 0 ∉ env.copied)
    (hargc : args.length < 256) (henvc : envs.length < 256)
    (hargv : stringBytes (args.map Passed.string) ≤ 0x4000)
    (henvp : stringBytes (envs.map Passed.string) ≤ 0x8000) (before : Store) :
    PassesOn (marshal base (base + 0x1020) 0x8000 (envs.map Passed.copied)
      (marshal base (base + 0x1010) 0x4000 (args.map Passed.copied)
        (write before (base + 0x1000) (leBytes 4 args.length)))) base args envs ↔
      FoundUnbased args envs := by
  have hargBytes := copied_bytes_le args
  have henvBytes := copied_bytes_le envs
  simp only [PAGE_SIZE] at hargBytes henvBytes
  generalize hfirst : write before (base + 0x1000) (leBytes 4 args.length) = first
  generalize hargvMem : marshal base (base + 0x1010) 0x4000 (args.map Passed.copied) first = argvMem
  generalize hmem : marshal base (base + 0x1020) 0x8000 (envs.map Passed.copied) argvMem = mem
  have hkept : ∀ address, base + 0x1000 ≤ address → address < base + 0x1020 ∨
      base + 0x4000 ≤ address → address < base + 0x8000 → argvMem address = mem address := by
    intro address hlow hplace hhigh
    rw [← hmem, marshal_outside]
    · simp only [List.length_map]
      omega
    · omega
  obtain ⟨hlaid, hnull⟩ : Laid argvMem base (base + 0x1010) 0x4000 (args.map Passed.copied) ∧
      word argvMem (base + 0x1010 + 4 * (args.map Passed.copied).length) = 0 := by
    rw [← hargvMem]
    exact marshal_laid (by simpa using hargs) (by simp only [List.length_map]; omega) (by omega)
  have henvDecodes : Decodes mem base (base + 0x1020) (envs.map Passed.copied) := by
    rw [← hmem]
    exact marshal_decodes (by simpa using henvs) (by simp only [List.length_map]; omega) (by omega)
      (by omega)
  have hcount : word mem (base + 0x1000) = args.length := by
    have hsame : word mem (base + 0x1000) = word first (base + 0x1000) := by
      apply word_congr
      intro address hlow hhigh
      rw [← hkept address hlow (by omega) (by omega), ← hargvMem, marshal_outside (by omega) (by omega)]
    rw [hsame, ← hfirst, word_write_self (by omega)]
  have hfront := hlaid.take 4
  have hlength : ((args.map Passed.copied).take 4).length = min 4 args.length := by simp
  constructor
  · intro hpasses
    have henvEq := henvDecodes.unique hpasses.envp
    obtain ⟨hprefixed, hrest⟩ := hfront.of_decodes (by omega)
      (fun address hlow hhigh => hkept address (by omega) (by omega) (by omega))
      (fun address hlow hhigh => hkept address (by omega) (by omega) hhigh) hpasses.argv (by omega)
    have hfrontEq : (args.take 4).map Passed.copied = (args.take 4).map Passed.string := by
      have htake := List.prefix_iff_eq_take.mp hprefixed
      rw [hlength, ← List.map_take, ← List.map_take] at htake
      rw [htake]
      congr 1
      simp [List.take_eq_take_iff]
    refine ⟨fun arg => (List.map_inj_left.mp hfrontEq) arg, fun env => (List.map_inj_left.mp henvEq) env, ?_⟩
    by_cases hfew : args.length < 4
    · exact .inl hfew
    · right
      rw [hlength, show min 4 args.length = 4 by omega] at hrest
      rw [List.map_drop, ← henvEq]
      exact hrest.unique henvDecodes
  · intro hfound
    have hfrontEq : (args.map Passed.copied).take 4 = (args.map Passed.string).take 4 := by
      rw [← List.map_take, ← List.map_take]
      exact List.map_inj_left.mpr hfound.argv
    have henvEq : envs.map Passed.copied = envs.map Passed.string := List.map_inj_left.mpr hfound.envp
    have hfrontBytes := stringBytes_take_le (args.map Passed.string) 4
    rw [← hfrontEq] at hfrontBytes
    have hfrontMem : Laid mem base (base + 0x1010) 0x4000 ((args.map Passed.copied).take 4) :=
      hfront.congr (fun address hlow hhigh => hkept address (by omega) (by omega) (by omega))
        fun address hlow hhigh => hkept address (by omega) (by omega) (by omega)
    refine ⟨hcount, ?_, henvEq ▸ henvDecodes⟩
    by_cases hfew : args.length < 4
    · have hall : (args.map Passed.copied).take 4 = args.map Passed.string := by
        rw [hfrontEq, List.take_of_length_le (by simp only [List.length_map]; omega)]
      have hend : Decodes mem base (base + 0x1010 + 4 * ((args.map Passed.copied).take 4).length) [] := by
        rw [Decodes, ← hnull, hlength, List.length_map, show min 4 args.length = args.length by omega]
        apply word_congr
        intro address hlow hhigh
        exact (hkept address (by omega) (by omega) (by omega)).symm
      have hdecodes := hfrontMem.decodes (by omega) hend
      rwa [List.append_nil, hall] at hdecodes
    · have hsplit : (args.map Passed.copied).take 4 ++ envs.map Passed.copied = args.map Passed.string := by
        rw [hfrontEq, henvEq, ← hfound.overlap.resolve_left hfew, List.map_drop, List.take_append_drop]
      rw [← hsplit]
      refine hfrontMem.decodes (by omega) ?_
      rw [hlength, show min 4 args.length = 4 by omega]
      exact henvDecodes

-- The new image has the caller's strings exactly when they are found without the base of the
-- caller, and its array of the environment agrees with the part of argv that it lies on.
theorem execve_passes_iff (hcall : ExecveCall k current address task argvPtr envpPtr args envs file)
    (hargc : args.length < 256) (henvc : envs.length < 256)
    (hargv : stringBytes (args.map Passed.string) ≤ 0x4000)
    (henvp : stringBytes (envs.map Passed.string) ≤ 0x8000) (load : List Request) :
    PassesOn (execve k current (args.map Passed.arg) (envs.map Passed.arg) (some file) load).heap.mem
        (execveImage k args envs file).1 args envs ↔
      FoundUnbased args envs := by
  obtain ⟨before, hmem⟩ := hcall.mem_eq hargc henvc load
  rw [hmem]
  exact passesOn_iff (fun arg harg => (hcall.argv.ends arg harg).2)
    (fun env henv => (hcall.envp.ends env henv).2) hargc henvc hargv henvp before

-- A task at 0x200000 with one argument, "a" at 0x100 of its memory; at 0x100 of the kernel's there
-- is another byte.
def callerMemory (unbased : UInt8) : Store := fun address =>
  if address = 0x200081 then 1
  else if address = 0x200100 then 97
  else if address = 0x100 then unbased
  else 0

def callerKernel (unbased : UInt8) : Kernel where
  heap := { emptyHeap with mem := callerMemory unbased }
  taskTable := Function.update (fun _ => .null) 1 (.task PAGE_SIZE { base := 0x200000, pages := 33 })
  others := fun _ => 0

def samePassed : Passed := ⟨[97], [97], by decide⟩

def lostPassed : Passed := ⟨[97], [], by decide⟩

theorem callerMemory_null (unbased : UInt8) : word (callerMemory unbased) 0x200084 = 0 := rfl

theorem same_call : ExecveCall (callerKernel 97) 1 PAGE_SIZE { base := 0x200000, pages := 33 } 0x80 0x84
    [samePassed] [] emptyProgram where
  slot := rfl
  argv := ⟨by decide, ⟨by decide, by decide⟩, ⟨by decide, by decide⟩, callerMemory_null 97⟩
  envp := callerMemory_null 97
  tmpArgv := by decide
  tmpEnvp := by decide
  image := by decide

theorem lost_call : ExecveCall (callerKernel 0) 1 PAGE_SIZE { base := 0x200000, pages := 33 } 0x80 0x84
    [lostPassed] [] emptyProgram where
  slot := rfl
  argv := ⟨by decide, ⟨by decide, by decide⟩, ⟨by decide, by decide⟩, callerMemory_null 0⟩
  envp := callerMemory_null 0
  tmpArgv := by decide
  tmpEnvp := by decide
  image := by decide

theorem execve_passes_letter :
    PassesOn (execve (callerKernel 97) 1 ([samePassed].map Passed.arg) ([].map Passed.arg)
        (some emptyProgram) []).heap.mem
      (execveImage (callerKernel 97) [samePassed] [] emptyProgram).1 [samePassed] [] :=
  (execve_passes_iff same_call (by decide) (by decide) (by decide) (by decide) []).mpr
    ⟨by simp [samePassed], by simp, .inl (by decide)⟩

-- The argument arrives empty.
theorem execve_loses_letter :
    ExecveCall (callerKernel 0) 1 PAGE_SIZE { base := 0x200000, pages := 33 } 0x80 0x84 [lostPassed] []
        emptyProgram ∧
      ¬ PassesOn (execve (callerKernel 0) 1 ([lostPassed].map Passed.arg) ([].map Passed.arg)
          (some emptyProgram) []).heap.mem
        (execveImage (callerKernel 0) [lostPassed] [] emptyProgram).1 [lostPassed] [] := by
  refine ⟨lost_call, ?_⟩
  obtain ⟨before, hmem⟩ := lost_call.mem_eq (by decide) (by decide) []
  rw [hmem, passesOn_iff (by decide) (by simp) (by decide) (by decide) (by decide) (by decide)]
  intro hfound
  exact absurd (hfound.argv lostPassed (by simp)) (by decide)

end EchidnaOS
