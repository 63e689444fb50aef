import EchidnaOS.Partition.Table.Scan

namespace EchidnaOS.Partition

open EchidnaOS.Lib EchidnaOS.Lib.ByteStore EchidnaOS.Devfs

-- A driver whose reads succeed answers with the bytes of the medium.
def answerOf (content : Store) (loc : Nat) : Int := (content loc).toNat

-- The bytes from a location on, as the `int` of a transfer walks over them.
def bytesFrom (content : Store) (start : Nat) : Store := fun offset =>
  content (toU64 (toInt (start + offset : Nat)))

-- A medium with a GPT header in its second sector.
structure GptMedium (content : Store) (size : Nat) : Prop where
  small : size < 2 ^ 31
  header : 512 + SIZEOF_GPT_TABLE_HEADER ≤ size
  signature : (gptTableHeader fun offset => content (512 + offset)).signature = efiPart
  revision : (gptTableHeader fun offset => content (512 + offset)).revision = 0x00010000
  stride : 128 ≤ (gptTableHeader fun offset => content (512 + offset)).sizeOfPartitionEntry

def headerOf (content : Store) : GptTableHeader := gptTableHeader fun offset => content (512 + offset)

-- The entry where the header says that it is.
def entryOf (content : Store) (k : Nat) : GptEntry :=
  gptEntry fun offset =>
    content ((headerOf content).partitionEntryLba * 512 + k * (headerOf content).sizeOfPartitionEntry + offset)

def GptEntry.count (entry : GptEntry) : Nat := (entry.endingLba + (2 ^ 64 - entry.startingLba) + 1) % 2 ^ 64

def GptEntry.empty (entry : GptEntry) : Prop := entry.uniquePartitionGuid = List.replicate 16 0

instance (entry : GptEntry) : Decidable entry.empty := inferInstanceAs (Decidable (_ = _))

-- What get_part is to return for a partition below the number of entries.
def ReadsEntry (content : Store) (k : Nat) (result : Int × Found × DevfsHandle) : Prop :=
  (result.1 = NO_PARTITION ↔ (entryOf content k).empty) ∧
    (¬ (entryOf content k).empty → result.1 = 0 ∧
      result.2.1.firstSect = (entryOf content k).startingLba ∧
      result.2.1.sectCount = (entryOf content k).count)

-- Where the code looks for the entry: it does not use the size of the header, and a seek that
-- fails leaves the handle behind the header.
def entryPlace (content : Store) (size k : Nat) : Nat :=
  let target := toU64 (toInt (entryOffset (headerOf content) (toInt k)))
  if target ≤ size then target else 512 + SIZEOF_GPT_TABLE_HEADER

def entrySeen (content : Store) (size k : Nat) : GptEntry :=
  gptEntry (bytesFrom content (entryPlace content size k))

-- The entry that is seen is as good as the one that is meant, where the last byte of a GUID does
-- not tell whether it is empty.
def SeesEntry (content : Store) (size k : Nat) : Prop :=
  ((entrySeen content size k).uniquePartitionGuid.take 15 = List.replicate 15 0 ↔
      (entryOf content k).empty) ∧
    (¬ (entryOf content k).empty →
      (entrySeen content size k).startingLba = (entryOf content k).startingLba ∧
      (entrySeen content size k).count = (entryOf content k).count)

-- A handle as devfs_open makes it.
structure Fresh (size : Nat) (h : DevfsHandle) : Prop where
  inUse : h.free = false
  isblock_eq : h.isblock = decide (size = 0)
  ptr_eq : h.ptr = 0
  begin_eq : h.begin = 0
  finish_eq : h.finish = size

variable {content : Store} {size k len : Nat} {h : DevfsHandle} {ret : Found} {stack buffer : Store}

theorem ureadLoop_bytes (start : Nat) {t : Transfer Unit} (hptr : t.iPtr = toInt start) :
    (ureadLoop (driverOf (answerOf content)) len t).buffer =
        blit t.buffer t.count len (bytesFrom content start) ∧
      (ureadLoop (driverOf (answerOf content)) len t).iPtr = toInt (start + len : Nat) := by
  induction len generalizing start t with
  | zero =>
      refine ⟨?_, hptr⟩
      funext address
      rw [blit_outside _ _ _ _ _ (by omega)]
      rfl
  | succ len ih =>
      obtain ⟨hnofail, hready⟩ := byte_succeeds (content (toU64 t.iPtr))
      have hanswer : (driverOf (answerOf content) t.device (toU64 t.iPtr) .read 0).1 =
          (content (toU64 t.iPtr)).toNat := rfl
      have hnext : toInt (t.iPtr + 1) = toInt (start + 1 : Nat) := by rw [hptr, toInt_succ]
      have hsource : bytesFrom content (start + 1) = fun offset => bytesFrom content start (offset + 1) := by
        funext offset
        unfold bytesFrom
        rw [Nat.add_assoc, Nat.add_comm 1 offset]
      have hfirst : content (toU64 t.iPtr) = bytesFrom content start 0 := by
        rw [hptr]
        rfl
      obtain ⟨hbuffer, hiPtr⟩ := ih (start + 1)
        (t := { t with
          count := t.count + 1
          iPtr := toInt (t.iPtr + 1)
          buffer := Function.update t.buffer t.count (toChar (content (toU64 t.iPtr)).toNat) }) hnext
      rw [ureadLoop, hanswer, if_neg hnofail, if_neg hready]
      refine ⟨hbuffer.trans ?_, hiPtr.trans ?_⟩
      · rw [toChar_toNat, hfirst, hsource, blit_cons]
      · rw [Nat.add_assoc, Nat.add_comm 1 len]

theorem readAt_bytes (loc : Nat) : (readAt (answerOf content) h loc buffer len).1 =
      blit buffer 0 len (bytesFrom content (devfsSeek h (toInt loc) .set).2.ptr) ∧
    (readAt (answerOf content) h loc buffer len).2 =
      { (devfsSeek h (toInt loc) .set).2 with
        ptr := toU64 (toInt ((devfsSeek h (toInt loc) .set).2.ptr + len : Nat)) } := by
  obtain ⟨hbuffer, hiPtr⟩ := @ureadLoop_bytes content len (devfsSeek h (toInt loc) .set).2.ptr
    (Transfer.start (devfsSeek h (toInt loc) .set).2 () buffer) (by simp only [Transfer.start])
  unfold readAt ureadIo
  refine ⟨hbuffer, ?_⟩
  dsimp only
  rw [hiPtr]

theorem gptTableHeader_congr {first second : Store}
    (hsame : ∀ offset, offset < SIZEOF_GPT_TABLE_HEADER → first offset = second offset) :
    gptTableHeader first = gptTableHeader second := by
  have hread : ∀ start count, start + count ≤ 92 → read first start count = read second start count := by
    intro start count hend
    apply read_congr
    intro address hlow hhigh
    exact hsame address (show address < 92 by omega)
  unfold gptTableHeader
  rw [hread 0 8 (by decide), hread 8 4 (by decide), hread 72 8 (by decide), hread 80 4 (by decide),
    hread 84 4 (by decide)]

theorem gptEntry_congr {first second : Store}
    (hsame : ∀ offset, offset < SIZEOF_GPT_ENTRY → first offset = second offset) :
    gptEntry first = gptEntry second := by
  have hread : ∀ start count, start + count ≤ 128 → read first start count = read second start count := by
    intro start count hend
    apply read_congr
    intro address hlow hhigh
    exact hsame address (show address < 128 by omega)
  unfold gptEntry
  rw [hread 16 16 (by decide), hread 32 8 (by decide), hread 40 8 (by decide)]

theorem blit_front {offset : Nat} (hoffset : offset < len) (source : Store) :
    blit buffer 0 len source offset = source offset := by
  have hinside := blit_inside buffer 0 len source offset hoffset
  rwa [Nat.zero_add] at hinside

theorem Fresh.readHeader (hfresh : Fresh size h) (hsize : 512 ≤ size) :
    (readHeader (answerOf content) h).1 =
        blit (fun _ => 0) 0 SIZEOF_GPT_TABLE_HEADER (bytesFrom content 512) ∧
      (readHeader (answerOf content) h).2 = { h with ptr := 512 + SIZEOF_GPT_TABLE_HEADER } := by
  have hblock : h.isblock = false := by
    rw [hfresh.isblock_eq]
    exact decide_eq_false (by omega)
  have hplace : toU64 (toInt (512 : Nat)) = 512 := toU64_toInt_small (by decide)
  have hbehind : toU64 (toInt (512 + SIZEOF_GPT_TABLE_HEADER : Nat)) = 512 + SIZEOF_GPT_TABLE_HEADER :=
    toU64_toInt_small (by decide)
  have hseek := devfsSeek_set hfresh.inUse hblock hfresh.begin_eq 512
  rw [hplace, if_pos (show 512 ≤ h.finish by rw [hfresh.finish_eq]; exact hsize)] at hseek
  obtain ⟨hbuffer, hhandle⟩ := @readAt_bytes content SIZEOF_GPT_TABLE_HEADER h (fun _ => 0) 512
  rw [hseek] at hbuffer hhandle
  dsimp only at hbuffer hhandle
  rw [hbehind] at hhandle
  exact ⟨hbuffer, hhandle⟩

theorem Fresh.header_eq (hfresh : Fresh size h) (hsize : 512 ≤ size) :
    gptTableHeader (Partition.readHeader (answerOf content) h).1 = headerOf content := by
  rw [(hfresh.readHeader hsize).1]
  apply gptTableHeader_congr
  intro offset hoffset
  have hsmall : offset < 92 := hoffset
  rw [blit_front hoffset]
  unfold bytesFrom
  rw [toU64_toInt_small (by omega)]

-- The last byte of the longer part does not count.
theorem memcmp_zeros {bytes : List UInt8} {count : Nat} (hlength : bytes.length = count + 1) :
    memcmp bytes (List.replicate (count + 1) 0) (count + 1) = 0 ↔
      bytes.take count = List.replicate count 0 := by
  induction count generalizing bytes with
  | zero =>
      obtain ⟨x, rfl⟩ := List.length_eq_one_iff.mp hlength
      simp [memcmp]
  | succ count ih =>
      cases bytes with
      | nil => cases hlength
      | cons x bytes =>
          rw [List.replicate_succ, memcmp, List.take_succ_cons, List.replicate_succ]
          by_cases hx : x = 0
          · have hrest := ih (show bytes.length = count + 1 by simpa using hlength)
            rw [List.replicate_succ] at hrest
            rw [if_pos hx, hrest, hx]
            simp
          · have hne : (x - 0).toInt8.toInt ≠ 0 := by
              intro hzero
              have hsame : x.toInt8 = (0 : UInt8).toInt8 := by
                apply Int8.toInt_inj.mp
                simpa using hzero
              exact hx (UInt8.toBitVec_inj.mp (congrArg Int8.toBitVec hsame))
            rw [if_neg hx, if_neg (Nat.succ_ne_zero count)]
            exact iff_of_false hne fun heq => hx (List.cons.inj heq).1

theorem GptMedium.hasGpt (hmedium : GptMedium content size) (hfresh : Fresh size h) :
    HasGpt (answerOf content) h := by
  have hheader := hmedium.header
  unfold HasGpt
  rw [hfresh.header_eq (by omega)]
  exact hmedium.signature

theorem getPart_of_hasGpt (hgpt : HasGpt (answerOf content) h) (partition : Int) :
    getPart (answerOf content) h ret partition stack = gptGetPart (answerOf content) h ret partition := by
  have hvalid : (gptGetPart (answerOf content) h ret partition).1 ≠ INVALID_TABLE := by
    by_cases hend : PastEnd (answerOf content) h partition stack
    · rw [gptGetPart_end hgpt hend]
      decide
    · rcases @gptGetPart_entry (answerOf content) h ret partition stack hgpt hend with hcode | hcode
      · rw [hcode]
        decide
      · rw [hcode]
        decide
  exact if_pos hvalid

theorem toInt_number (hk : k < 2 ^ 32) : (toInt k % 2 ^ 32).toNat = k := by
  rw [toInt_emod]
  omega

-- The entry that is seen settles the answer.
theorem gptGetPart_seen (hmedium : GptMedium content size) (hfresh : Fresh size h) (hk : k < 2 ^ 32)
    (hnumber : k < (headerOf content).numberOfPartitionEntries) :
    ∃ last, gptGetPart (answerOf content) h ret (toInt k) =
      if (entrySeen content size k).uniquePartitionGuid.take 15 = List.replicate 15 0 then
        (NO_PARTITION, ret, last)
      else
        (0, { firstSect := (entrySeen content size k).startingLba
              sectCount := (entrySeen content size k).count
              guid := (entrySeen content size k).uniquePartitionGuid }, last) := by
  have hsize := hmedium.header
  have hblock : h.isblock = false := by
    rw [hfresh.isblock_eq]
    exact decide_eq_false (by omega)
  have hheader := @Fresh.header_eq content size h hfresh (by omega)
  have hhead := (@Fresh.readHeader content size h hfresh (by omega)).2
  have hsignature : ¬ (headerOf content).signature ≠ efiPart := not_not.mpr hmedium.signature
  have hrevision : ¬ (headerOf content).revision ≠ 0x00010000 := not_not.mpr hmedium.revision
  have hbelow : ¬ (headerOf content).numberOfPartitionEntries ≤ (toInt k % 2 ^ 32).toNat := by
    rw [toInt_number hk]
    exact Nat.not_le.mpr hnumber
  have hseek := @devfsSeek_set { h with ptr := 512 + SIZEOF_GPT_TABLE_HEADER } hfresh.inUse hblock
    hfresh.begin_eq (entryOffset (headerOf content) (toInt k))
  have hbody := (@readAt_bytes content SIZEOF_GPT_ENTRY { h with ptr := 512 + SIZEOF_GPT_TABLE_HEADER }
    (fun _ => 0) (entryOffset (headerOf content) (toInt k))).1
  have hplace : (if toU64 (toInt (entryOffset (headerOf content) (toInt k))) ≤ h.finish then
      toU64 (toInt (entryOffset (headerOf content) (toInt k))) else 512 + SIZEOF_GPT_TABLE_HEADER) =
        entryPlace content size k := by
    unfold entryPlace
    rw [hfresh.finish_eq]
  rw [hseek] at hbody
  dsimp only at hbody
  rw [hplace] at hbody
  have hentry : gptEntry (readAt (answerOf content) { h with ptr := 512 + SIZEOF_GPT_TABLE_HEADER }
      (entryOffset (headerOf content) (toInt k)) (fun _ => 0) SIZEOF_GPT_ENTRY).1 =
        entrySeen content size k := by
    rw [hbody]
    exact gptEntry_congr fun offset hoffset => blit_front hoffset _
  have hempty := @memcmp_zeros (entrySeen content size k).uniquePartitionGuid 15 (read_length _ _ _)
  unfold gptGetPart
  dsimp only
  rw [hheader, hhead, if_neg hsignature, if_neg hrevision, if_neg hbelow, hentry]
  refine ⟨(readAt (answerOf content) { h with ptr := 512 + SIZEOF_GPT_TABLE_HEADER }
    (entryOffset (headerOf content) (toInt k)) (fun _ => 0) SIZEOF_GPT_ENTRY).2, ?_⟩
  by_cases hseen : (entrySeen content size k).uniquePartitionGuid.take 15 = List.replicate 15 0
  · rw [if_pos hseen, if_pos (hempty.mpr hseen)]
  · rw [if_neg hseen, if_neg (mt hempty.mp hseen)]
    rfl

-- While the entry lies in the medium, the code looks at a multiple of 128 bytes behind the first.
theorem entryPlace_inside (hmedium : GptMedium content size)
    (hinside : (headerOf content).partitionEntryLba * 512 + k * (headerOf content).sizeOfPartitionEntry +
      SIZEOF_GPT_ENTRY ≤ size) :
    entryPlace content size k = (headerOf content).partitionEntryLba * 512 + k * SIZEOF_GPT_ENTRY := by
  have hsmall := hmedium.small
  have hstride : k * SIZEOF_GPT_ENTRY ≤ k * (headerOf content).sizeOfPartitionEntry :=
    Nat.mul_le_mul_left k hmedium.stride
  have hle : (headerOf content).partitionEntryLba * 512 + k * SIZEOF_GPT_ENTRY ≤ size := by
    calc (headerOf content).partitionEntryLba * 512 + k * SIZEOF_GPT_ENTRY
      _ ≤ (headerOf content).partitionEntryLba * 512 + k * (headerOf content).sizeOfPartitionEntry :=
          Nat.add_le_add_left hstride _
      _ ≤ size := Nat.le_of_add_right_le hinside
  have hproduct : (toInt k * SIZEOF_GPT_ENTRY % 2 ^ 32).toNat = k * SIZEOF_GPT_ENTRY := by
    rw [Int.mul_emod, toInt_emod, ← Int.mul_emod]
    rw [Int.emod_eq_of_lt (by positivity) (by exact_mod_cast (show k * SIZEOF_GPT_ENTRY < 2 ^ 32 by omega))]
    exact Int.toNat_natCast _
  have hoffset : entryOffset (headerOf content) (toInt k) =
      (headerOf content).partitionEntryLba * 512 + k * SIZEOF_GPT_ENTRY := by
    unfold entryOffset
    rw [hproduct]
    exact Nat.mod_eq_of_lt (by omega)
  unfold entryPlace
  rw [hoffset, toU64_toInt_small (by omega), if_pos hle]

-- An entry of a GPT is looked for with a stride of 128 bytes, and its GUID is taken for empty
-- when the first 15 bytes of it are zero.
theorem gpt_get_part_reads_entry_iff (content : Store) (size : Nat) (h : DevfsHandle) (ret : Found)
    (stack : Store) (hmedium : GptMedium content size) (hfresh : Fresh size h) (k : Nat) (hk : k < 2 ^ 32) :
    ((headerOf content).numberOfPartitionEntries ≤ k →
      (getPart (answerOf content) h ret (toInt k) stack).1 = END_OF_TABLE) ∧
    (k < (headerOf content).numberOfPartitionEntries →
      (ReadsEntry content k (getPart (answerOf content) h ret (toInt k) stack) ↔
        SeesEntry content size k)) ∧
    ((headerOf content).partitionEntryLba * 512 + k * (headerOf content).sizeOfPartitionEntry +
        SIZEOF_GPT_ENTRY ≤ size →
      entryPlace content size k =
        (headerOf content).partitionEntryLba * 512 + k * SIZEOF_GPT_ENTRY) := by
  have hgpt := hmedium.hasGpt hfresh
  have hsize := hmedium.header
  refine ⟨?_, ?_, entryPlace_inside hmedium⟩
  · intro hnumber
    apply getPart_end_iff.mpr
    unfold PastEnd
    rw [if_pos hgpt, hfresh.header_eq (by omega), toInt_number hk]
    exact Or.inr hnumber
  · intro hnumber
    obtain ⟨last, hget⟩ := @gptGetPart_seen content size k h ret hmedium hfresh hk hnumber
    rw [getPart_of_hasGpt hgpt, hget]
    unfold ReadsEntry SeesEntry
    by_cases hseen : (entrySeen content size k).uniquePartitionGuid.take 15 = List.replicate 15 0
    · rw [if_pos hseen]
      constructor
      · intro hread
        have hempty : (entryOf content k).empty := hread.1.mp rfl
        exact ⟨iff_of_true hseen hempty, fun hfull => absurd hempty hfull⟩
      · intro hsees
        have hempty : (entryOf content k).empty := hsees.1.mp hseen
        exact ⟨iff_of_true rfl hempty, fun hfull => absurd hempty hfull⟩
    · rw [if_neg hseen]
      refine and_congr ?_ ?_
      · have hcode : (0 : Int) ≠ NO_PARTITION := by decide
        exact iff_congr (iff_of_false hcode hseen) Iff.rfl
      · simp

-- A header at 512 that puts two entries of 128 or of 256 bytes behind it, the second of which has
-- a GUID that begins with 1.
def mediumWith (stride : Nat) : Store := fun loc =>
  if 512 ≤ loc ∧ loc < 520 then efiPart.getD (loc - 512) 0
  else if loc = 522 then 1
  else if loc = 584 then 2
  else if loc = 592 then 2
  else if loc = 596 then UInt8.ofNat (stride % 256)
  else if loc = 597 then UInt8.ofNat (stride / 256)
  else if loc = 1024 + stride + 16 then 1
  else 0

def mediumHandle : DevfsHandle where
  path := [98, 100, 48]
  finish := 2048

theorem gpt_get_part_reads_entry_iff_second :
    ReadsEntry (mediumWith 128) 1
      (getPart (answerOf (mediumWith 128)) mediumHandle {} (toInt (1 : Nat)) fun _ => 0) :=
  ((gpt_get_part_reads_entry_iff (mediumWith 128) 2048 mediumHandle {} (fun _ => 0)
    ⟨by decide, by decide, by decide, by decide, by decide⟩ ⟨rfl, rfl, rfl, rfl, rfl⟩ 1 (by decide)).2.1
    (by decide)).mpr (by unfold SeesEntry; decide)

-- The stride of 128 bytes leads into the first of the wide entries, where there are zeros.
theorem wide_entry_not_read : GptMedium (mediumWith 256) 2048 ∧ Fresh 2048 mediumHandle ∧
    1 < (headerOf (mediumWith 256)).numberOfPartitionEntries ∧
    ¬ ReadsEntry (mediumWith 256) 1
      (getPart (answerOf (mediumWith 256)) mediumHandle {} (toInt (1 : Nat)) fun _ => 0) := by
  have hmedium : GptMedium (mediumWith 256) 2048 := ⟨by decide, by decide, by decide, by decide, by decide⟩
  have hfresh : Fresh 2048 mediumHandle := ⟨rfl, rfl, rfl, rfl, rfl⟩
  have hnumber : 1 < (headerOf (mediumWith 256)).numberOfPartitionEntries := by decide
  refine ⟨hmedium, hfresh, hnumber, fun hread => ?_⟩
  obtain ⟨last, hget⟩ :=
    @gptGetPart_seen (mediumWith 256) 2048 1 mediumHandle {} hmedium hfresh (by decide) hnumber
  rw [getPart_of_hasGpt (hmedium.hasGpt hfresh), hget, if_pos (by decide)] at hread
  have hempty : (entryOf (mediumWith 256) 1).empty := hread.1.mp rfl
  exact absurd hempty (by decide)

end EchidnaOS.Partition
