import PcNetwork.Library.Block
import PcNetwork.Library.Loop

namespace PcNetwork.Libbase
open Block

def blockSize : UInt32 := 10*1024*1024

-- The characters of an MD5 sum. GetMD5 writes them whatever the sum is made of.
abbrev Sum := Vector UInt8 32

variable (md5 : List UInt8 → Sum)

-- The sum of the block, with the sum so far behind it, is summed up again.
def chain (bufMD5 : Sum) (block : List UInt8) : Sum := md5 ((md5 block).toList ++ bufMD5.toList)

-- The bytes that are copied, and no result where the start is behind the end.
def readMemBuffer (nStartReadPos nEndReadPos : UInt32) (lpMem : List UInt8) (nNumberOfBytesToRead : UInt32) : Option (List UInt8 × UInt32) :=
  if nStartReadPos > nEndReadPos then none
  else
    let nDeffReadPos := nEndReadPos-nStartReadPos
    if nDeffReadPos ≤ nNumberOfBytesToRead then some (slice lpMem nStartReadPos.toNat nDeffReadPos.toNat,nDeffReadPos)
    else some (slice lpMem nStartReadPos.toNat nNumberOfBytesToRead.toNat,nNumberOfBytesToRead)

structure MemInfo where
  startPos : UInt32
  size : UInt32
  bufMD5 : Sum

-- One round of the loop over the memory.
def memRound (lpMem : List UInt8) (dwSize : UInt32) (s : MemInfo) : MemInfo ⊕ (Bool × Sum) :=
  if s.size = blockSize then
    match readMemBuffer s.startPos dwSize lpMem blockSize with
    | none => .inr (false,s.bufMD5)
    | some (buffer,size) => .inl ⟨s.startPos+blockSize,size,chain md5 s.bufMD5 buffer⟩
  else .inr (true,s.bufMD5)

def fread (rest : List UInt8) (count : UInt32) : List UInt8 × List UInt8 := (rest.take count.toNat,rest.drop count.toNat)

structure FileInfo where
  file : List UInt8
  size : UInt32
  bufMD5 : Sum

-- One round of the loop over the file.
def fileRound (s : FileInfo) : FileInfo ⊕ (Bool × Sum) :=
  if s.size = blockSize then
    let (buffer,file) := fread s.file blockSize
    if buffer = [] then .inr (false,s.bufMD5)
    else .inl ⟨file,UInt32.ofNat buffer.length,chain md5 s.bufMD5 buffer⟩
  else .inr (true,s.bufMD5)

def zeros : Sum := Vector.replicate 32 0

-- Both begin with a size that makes the first round be made, and a sum of zeros.
def GenerateMemInfo (lpMem : List UInt8) (dwSize : UInt32) (r : Bool × Sum) : Prop :=
  Ends (memRound md5 lpMem dwSize) ⟨0,blockSize,zeros⟩ r

def GenerateFileInfo (file : List UInt8) (r : Bool × Sum) : Prop := Ends (fileRound md5) ⟨file,blockSize,zeros⟩ r

-- The same success, and the same characters where there is one.
def SameInfo (memory file : Bool × Sum) : Prop := memory.1 = file.1 ∧ (memory.1 = true → memory.2 = file.2)

def Agree (bytes : List UInt8) : Prop :=
  ∃ memory file, GenerateMemInfo md5 bytes (UInt32.ofNat bytes.length) memory ∧ GenerateFileInfo md5 bytes file ∧ SameInfo memory file

variable {bytes rest : List UInt8} {start : UInt32}

theorem blockSize_toNat : blockSize.toNat = 10485760 := rfl

-- What is left of the memory is copied, up to a block.
theorem readMemBuffer_rest (small : bytes.length < 2^32) (inside : start.toNat ≤ bytes.length) :
    ∃ size, readMemBuffer start (UInt32.ofNat bytes.length) bytes blockSize =
        some ((bytes.drop start.toNat).take blockSize.toNat,size) ∧
      size.toNat = min (bytes.length-start.toNat) blockSize.toNat := by
  have total : (UInt32.ofNat bytes.length).toNat = bytes.length := UInt32.toNat_ofNat_of_lt' small
  have ordered : start ≤ UInt32.ofNat bytes.length := by rw [UInt32.le_iff_toNat_le,total]; exact inside
  have left : (UInt32.ofNat bytes.length-start).toNat = bytes.length-start.toNat := by
    rw [UInt32.toNat_sub_of_le _ _ ordered,total]
  rw [readMemBuffer,if_neg (UInt32.not_lt.mpr ordered)]
  dsimp only
  split
  · rename_i short
    rw [UInt32.le_iff_toNat_le,left] at short
    refine ⟨UInt32.ofNat bytes.length-start,?_,by omega⟩
    rw [left,slice,List.take_of_length_le (by simp),List.take_of_length_le (by simp; omega)]
  · rename_i long
    rw [UInt32.le_iff_toNat_le,left] at long
    exact ⟨blockSize,rfl,by omega⟩

theorem mem_round (sum : Sum) (small : bytes.length < 2^32) (inside : start.toNat ≤ bytes.length) :
    ∃ size, memRound md5 bytes (UInt32.ofNat bytes.length) ⟨start,blockSize,sum⟩ =
        .inl ⟨start+blockSize,size,chain md5 sum ((bytes.drop start.toNat).take blockSize.toNat)⟩ ∧
      size.toNat = min (bytes.length-start.toNat) blockSize.toNat := by
  obtain ⟨size,read,length⟩ := readMemBuffer_rest small inside
  exact ⟨size,by simp [memRound,read],length⟩

theorem file_round (sum : Sum) (some_left : rest ≠ []) :
    ∃ size, fileRound md5 ⟨rest,blockSize,sum⟩ =
        .inl ⟨rest.drop blockSize.toNat,size,chain md5 sum (rest.take blockSize.toNat)⟩ ∧
      size.toNat = min rest.length blockSize.toNat := by
  have length : (rest.take blockSize.toNat).length = min rest.length blockSize.toNat := by
    rw [List.length_take,Nat.min_comm]
  refine ⟨UInt32.ofNat (rest.take blockSize.toNat).length,?_,?_⟩
  · have taken : rest.take blockSize.toNat ≠ [] := by simp [some_left,blockSize_toNat]
    simp [fileRound,fread,taken]
  · rw [UInt32.toNat_ofNat_of_lt',length]
    rw [length,blockSize_toNat,UInt32.size]
    omega

theorem size_full {size : UInt32} (full : size.toNat = blockSize.toNat) : size = blockSize := UInt32.toNat_inj.mp full

theorem mem_last {size : UInt32} (sum : Sum) (short : size.toNat < blockSize.toNat) :
    Ends (memRound md5 bytes dwSize) ⟨start,size,sum⟩ (true,sum) := by
  apply (Ends.last _).mpr rfl
  exact if_neg fun full => Nat.lt_irrefl _ (full ▸ short)

theorem file_last {size : UInt32} (sum : Sum) (short : size.toNat < blockSize.toNat) :
    Ends (fileRound md5) ⟨rest,size,sum⟩ (true,sum) := by
  apply (Ends.last _).mpr rfl
  exact if_neg fun full => Nat.lt_irrefl _ (full ▸ short)

-- From the same place on both loops see the same full blocks. Behind them the memory has
-- one more block in any case, and the file only if there is something left of it.
theorem both_end (small : bytes.length < 2^32) (inside : start.toNat ≤ bytes.length) (sum : Sum) :
    ∃ result partial_sum, Ends (memRound md5 bytes (UInt32.ofNat bytes.length)) ⟨start,blockSize,sum⟩ (true,result) ∧
      Ends (fileRound md5) ⟨bytes.drop start.toNat,blockSize,sum⟩
        (if (bytes.length-start.toNat)%blockSize.toNat = 0 then (false,partial_sum) else (true,result)) := by
  induction left : bytes.length-start.toNat using Nat.strongRecOn generalizing start sum with
  | ind n ih =>
    have positive : 0 < blockSize.toNat := by decide
    have left_length : (bytes.drop start.toNat).length = n := by rw [List.length_drop,left]
    obtain ⟨size,mem,length⟩ := mem_round md5 sum small inside
    rw [left] at length
    by_cases full : blockSize.toNat ≤ n
    · obtain rfl := size_full (by omega : size.toNat = blockSize.toNat)
      have further : (start+blockSize).toNat = start.toNat+blockSize.toNat := by
        rw [UInt32.toNat_add,Nat.mod_eq_of_lt (by omega)]
      have some_left : bytes.drop start.toNat ≠ [] := List.ne_nil_of_length_pos (by omega)
      obtain ⟨size,file,length_too⟩ := file_round md5 sum some_left
      obtain rfl := size_full (by omega : size.toNat = blockSize.toNat)
      rw [List.drop_drop,← further] at file
      obtain ⟨result,partial_sum,mem_ends,file_ends⟩ := ih (n-blockSize.toNat) (by omega)
        (by omega : (start+blockSize).toNat ≤ bytes.length) (chain md5 sum ((bytes.drop start.toNat).take blockSize.toNat)) (by omega)
      refine ⟨result,partial_sum,(Ends.more mem).mpr mem_ends,(Ends.more file).mpr ?_⟩
      rw [Nat.mod_eq_sub_mod full]
      exact file_ends
    · refine ⟨chain md5 sum ((bytes.drop start.toNat).take blockSize.toNat),sum,?_,?_⟩
      · apply (Ends.more mem).mpr
        exact mem_last md5 _ (by omega)
      · rw [Nat.mod_eq_of_lt (by omega)]
        by_cases nothing_left : n = 0
        · rw [if_pos nothing_left,List.eq_nil_of_length_eq_zero (left_length.trans nothing_left)]
          apply (Ends.last _).mpr rfl
          simp [fileRound,fread]
        · rw [if_neg nothing_left]
          obtain ⟨size,file,length_too⟩ := file_round md5 sum
            (List.ne_nil_of_length_pos (by omega) : bytes.drop start.toNat ≠ [])
          apply (Ends.more file).mpr
          exact file_last md5 _ (by omega)

theorem infos_end (small : bytes.length < 2^32) :
    ∃ result partial_sum, GenerateMemInfo md5 bytes (UInt32.ofNat bytes.length) (true,result) ∧
      GenerateFileInfo md5 bytes (if bytes.length%blockSize.toNat = 0 then (false,partial_sum) else (true,result)) := by
  have inside : (0 : UInt32).toNat ≤ bytes.length := Nat.zero_le _
  exact both_end md5 small inside zeros

-- The two agree exactly where the last block is a short one with something in it.
theorem fingerprints_agree (md5 : List UInt8 → Sum) (bytes : List UInt8) (small : bytes.length < 2^32) :
    Agree md5 bytes ↔ bytes.length%blockSize.toNat ≠ 0 := by
  obtain ⟨result,partial_sum,mem_ends,file_ends⟩ := infos_end md5 small
  constructor
  · rintro ⟨memory,file,mem_result,file_result,same,_⟩ block_end
    rw [if_pos block_end] at file_ends
    rw [mem_result.unique mem_ends,file_result.unique file_ends] at same
    cases same
  · intro no_block_end
    rw [if_neg no_block_end] at file_ends
    exact ⟨_,_,mem_ends,file_ends,rfl,fun _ => rfl⟩

theorem fingerprints_agree_greeting : Agree (fun bytes => Vector.replicate 32 (UInt8.ofNat bytes.length)) [72,105] :=
  (fingerprints_agree _ _ (by decide)).mpr (by decide)

-- Nothing in memory has a fingerprint, and an empty file has none.
theorem nothing_disagrees : ¬ ∀ md5 bytes, bytes.length < 2^32 → Agree md5 bytes := by
  intro agree
  obtain ⟨memory,file,mem_result,file_result,same,_⟩ := agree (fun _ => zeros) [] (by decide)
  obtain ⟨result,partial_sum,mem_ends,file_ends⟩ := infos_end (fun _ => zeros) (by decide : ([] : List UInt8).length < 2^32)
  rw [mem_result.unique mem_ends,file_result.unique file_ends] at same
  cases same

end PcNetwork.Libbase
