import EchidnaOS.Echfs.File.Grow

namespace EchidnaOS.Echfs

open EchidnaOS.Lib.ByteStore

variable {disk next : Store} {m : Mount} {entries : List Entry} {chains : Nat → List Nat}
  {chain : List Nat} {entry : Entry} {index block tBlock start : Nat}

def Entry.IsFile (entry : Entry) : Prop :=
  entry.type = FILE_TYPE ∧ entry.parentId ≠ DELETED_ENTRY

instance decidableIsFile (entry : Entry) : Decidable entry.IsFile :=
  inferInstanceAs (Decidable (_ ∧ _))

-- The chain of a file: as many data blocks as its size needs, none twice.
structure FileChain (m : Mount) (disk : Store) (entry : Entry) (chain : List Nat) : Prop where
  data : ∀ block ∈ chain, DataBlock m block
  linked : Linked disk m entry.payload chain
  nodup : chain.Nodup
  length : chain.length = blockCount entry.size

-- A well-formed image. The blocks before the data area are not free.
structure WellFormed (m : Mount) (disk : Store) (entries : List Entry) (chains : Nat → List Nat) :
    Prop where
  geometry : Geometry m
  table : Table m disk entries
  reserved : ∀ block, block < m.datastart → fat disk m block ≠ 0
  files : ∀ index (h : index < entries.length), entries[index].IsFile →
    FileChain m disk entries[index] (chains index)
  disjoint : ∀ first second (hfirst : first < entries.length) (hsecond : second < entries.length),
    entries[first].IsFile → entries[second].IsFile → first ≠ second →
    (chains first).Disjoint (chains second)

theorem Geometry.directoryFits (hgeometry : Geometry m) : DirectoryFits m := by
  have hdirectory := hgeometry.directory_fits
  have hdata := hgeometry.data_le
  have hdevice := hgeometry.device_le
  exact (Nat.mul_le_mul_right BYTES_PER_BLOCK (hdirectory.trans hdata)).trans hdevice

-- Every slot lies in the directory area.
theorem entryLoc_end_le (hgeometry : Geometry m) (hindex : index < capacity m) :
    m.dirstart * BYTES_PER_BLOCK ≤ entryLoc m index ∧
      entryLoc m index + SIZEOF_ENTRY ≤ m.datastart * BYTES_PER_BLOCK := by
  have hdirectory := hgeometry.directory_fits
  rw [(entryLoc_eq hgeometry.directoryFits hindex).1]
  unfold capacity at hindex
  simp only [BYTES_PER_BLOCK, SIZEOF_ENTRY] at hindex ⊢
  omega

-- A table depends only on the directory area.
theorem Table.of_same (hgeometry : Geometry m) (htable : Table m disk entries)
    (hsame : ∀ address, m.dirstart * BYTES_PER_BLOCK ≤ address →
      address < m.datastart * BYTES_PER_BLOCK → next address = disk address) :
    Table m next entries := by
  have hfits := hgeometry.directoryFits
  have hslot : ∀ index, index < capacity m → ∀ address, entryLoc m index ≤ address →
      address < entryLoc m index + SIZEOF_ENTRY → disk address = next address := by
    intro index hindex address hlow hhigh
    have hloc := (entryLoc_eq hfits hindex).1
    have hdirectory := hgeometry.directory_fits
    refine (hsame address (by omega) ?_).symm
    simp only [capacity, BYTES_PER_BLOCK, SIZEOF_ENTRY] at *
    omega
  have hroom := htable.room
  refine ⟨hroom, ?_, htable.fits, htable.parents, ?_⟩
  · intro index hindex
    have hname := htable.name_lt hindex
    rw [← htable.used index hindex]
    refine rdEntry_congr hname fun address hlow hhigh => ?_
    exact (hslot index (by omega) address hlow hhigh).symm
  · intro index hlow hhigh
    rw [← htable.free index hlow hhigh]
    show leValue (read _ _ 8) = leValue (read _ _ 8)
    congr 1
    apply read_congr
    intro address haddress haddress'
    refine (hslot index hhigh address haddress ?_).symm
    simp only [SIZEOF_ENTRY]
    omega

theorem wrTargetEntry_keeps (hgeometry : Geometry m) {file : CachedFile}
    (hindex : file.pathResult.targetEntry < capacity m)
    (hname : file.pathResult.target.name.length < FILENAME_LEN) :
    KeepsToDirectory m (wrTargetEntry m) file := by
  intro disk result hentry hsame address hout
  have hloc := (entryLoc_eq hgeometry.directoryFits hindex).1
  have hdirectory := hgeometry.directory_fits
  unfold wrTargetEntry wrEntry
  apply wrEntryAt_outside _ _ (hsame ▸ hname)
  rw [hentry]
  simp only [capacity, BYTES_PER_BLOCK, SIZEOF_ENTRY] at *
  omega

-- Every block of a chain has a successor or the end mark in the table.
theorem FileChain.fat_ne_zero (hgeometry : Geometry m) (hchain : FileChain m disk entry chain)
    (hmem : block ∈ chain) : fat disk m block ≠ 0 := by
  have hpos := hgeometry.data_pos
  have hdata := hchain.data
  have hlinked := hchain.linked
  generalize entry.payload = start at hlinked
  clear hchain
  induction chain generalizing start with
  | nil => exact absurd hmem List.not_mem_nil
  | cons head rest ih =>
      obtain ⟨-, hrest⟩ := hlinked
      rcases List.mem_cons.mp hmem with hhead | htail
      · rw [hhead]
        cases rest with
        | nil =>
            rw [show fat disk m head = END_OF_CHAIN from hrest]
            decide
        | cons second rest =>
            have hsecond := (hdata second (by simp)).1
            rw [hrest.1]
            omega
      · exact ih htail (fun other hother => hdata other (List.mem_cons_of_mem _ hother)) _ hrest

theorem Linked.congr (hlinked : Linked disk m start chain)
    (hsame : ∀ block ∈ chain, fat next m block = fat disk m block) : Linked next m start chain := by
  induction chain generalizing start with
  | nil => exact hlinked
  | cons head rest ih =>
      refine ⟨hlinked.1, ?_⟩
      rw [hsame head List.mem_cons_self]
      exact ih hlinked.2 fun block hmem => hsame block (List.mem_cons_of_mem _ hmem)

-- A new last block is linked from the one before it.
theorem Linked.append (hlinked : Linked disk m start chain) (hnodup : chain.Nodup)
    (hsame : ∀ block ∈ chain, fat next m block =
      if chain.getLast? = some block then tBlock else fat disk m block)
    (hlast : fat next m tBlock = END_OF_CHAIN) :
    Linked next m (if chain = [] then tBlock else start) (chain ++ [tBlock]) := by
  induction chain generalizing start with
  | nil => exact ⟨rfl, hlast⟩
  | cons head rest ih =>
      rw [if_neg (List.cons_ne_nil _ _)]
      refine ⟨hlinked.1, ?_⟩
      obtain ⟨hhead, hrest⟩ := List.nodup_cons.mp hnodup
      have hsuccessor := hsame head List.mem_cons_self
      cases rest with
      | nil =>
          rw [List.getLast?_singleton, if_pos rfl] at hsuccessor
          rw [hsuccessor]
          exact ⟨rfl, hlast⟩
      | cons second rest =>
          rw [List.getLast?_cons_cons, if_neg] at hsuccessor
          · rw [hsuccessor]
            have happend := ih hlinked.2 hrest fun block hmem => by
              rw [hsame block (List.mem_cons_of_mem _ hmem), List.getLast?_cons_cons]
            rw [if_neg (List.cons_ne_nil _ _)] at happend
            exact happend
          · intro hlast
            exact hhead (List.mem_of_getLast? hlast)

end EchidnaOS.Echfs
