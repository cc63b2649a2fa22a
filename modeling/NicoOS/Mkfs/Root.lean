import NicoOS.Mkfs.Inodes

/-!
# The root directory

The first file that `mkfs` makes on an image is a directory whose blocks are those below its
size.
-/

namespace NicoOS
namespace Mkfs

open Lib
open Fs
open Fs.Inode (Dinode InodeType)

/-- The root directory, with its two entries in one block. -/
structure Rooted (d : Disk) (root : UInt32) (d' : Disk) : Prop extends Directory d' root where
  sb : d'.sb = d.sb
  size : (iread d' root).size.toNat = 2 * direntSize
  paid : d'.free + 1 = d.free
  others : forall j, j < d.sb.ninodes -> j ≠ root -> iread d' j = iread d j

section Root

variable {d d1 d2 : Disk} {inum : UInt32}

theorem blocksOf_entry : blocksOf direntSize = 1 := rfl

theorem blocksOf_entries : blocksOf (2 * direntSize) = 1 := rfl

/-- One more link makes the root out of the directory with the two entries. -/
theorem rooted_of_appended (hl : Formatted d) (hempty : (iread d inum).size.toNat = 0)
    (htyped : (iread d inum).type ≠ InodeType.none.code)
    (h1 : Appended d inum direntSize d1) (h2 : Appended d1 inum (2 * direntSize) d2) :
    Rooted d inum
      (iwrite { iread d2 inum with nlink := (iread d2 inum).nlink + 1 } inum d2) := by
  have hl2 := (hl.congr h1.sb).congr h2.sb
  have hin := h2.stored.inside
  have hpaid1 := h1.paid
  have hpaid2 := h2.paid
  rw [hempty, blocksOf_entry] at hpaid1
  rw [h1.size, blocksOf_entry, blocksOf_entries, growCost_self] at hpaid2
  generalize hi : { iread d2 inum with nlink := (iread d2 inum).nlink + 1 } = i
  have hself := iread_iwrite_self i inum d2
  have hkept : (iwrite i inum d2).free = d2.free :=
    congrArg Finset.card ((tableOnly_iwrite hl2 i hin).freeBits hl2)
  have hfirst : growCost (blocksOf 0) 1 = 1 := rfl
  constructor
  · constructor
    · apply h2.stored.update hl2
      · rw [← hi]
      · rw [← hi]
    · rw [hself, ← hi]
      dsimp only
      rw [h2.type, h1.type]
      exact htyped
  · exact h2.sb.trans h1.sb
  · rw [hself, ← hi]
    exact h2.size
  · rw [hkept]
    lia
  · intro j hj hne
    have hj1 : j < d1.sb.ninodes := by
      rw [h1.sb]
      exact hj
    have hj2 : j < d2.sb.ninodes := by
      rw [h2.sb]
      exact hj1
    rw [iread_iwrite_of_ne hl2 _ hin hj2 hne, h2.others j hj1 hne]
    exact h1.others j hj hne

/-- `dir_make` of the root, whose parent is the root. -/
theorem dirMake_meets (hl : Formatted d) (h : Directory d inum) (stack : Memory)
    (hempty : (iread d inum).size.toNat = 0) :
    Meets (Rooted d inum) (Lacks d 1) (dirMake inum inum stack d) := by
  have hdot : ([46] : List UInt8).length < direntNameLength := by decide
  have hdots : ([46, 46] : List UInt8).length < direntNameLength := by decide
  have hfinish : direntSize = (iread d inum).size.toNat + direntSize := by
    rw [hempty, Nat.zero_add]
  unfold dirMake
  apply Meets.bind ((dirLink_meets hl h.toStored hdot inum stack hfinish).mono
    (fun _ hd => hd) _)
  · intro d1 hd1
    have h1 := hd1.right
    have hfinish2 : 2 * direntSize = (iread d1 inum).size.toNat + direntSize := by
      rw [h1.size, Nat.two_mul]
    apply Meets.bind ((dirLink_meets (hl.congr h1.sb) h1.stored hdots inum stack
      hfinish2).mono (fun _ hd => hd) _)
    · exact fun d2 hd2 => rooted_of_appended hl hempty h.typed h1 hd2.right
    · intro e he
      rw [h1.size] at he
      cases e with
      | exit => exact absurd he (Nat.not_lt_zero _)
      | overrun => exact absurd he.left (by decide)
  · intro e he
    rw [hempty] at he
    cases e with
    | exit => exact And.intro rfl he
    | overrun => exact absurd he.left (by decide)

/-- `create_root_file`, on an image with a free inode and a free block. -/
theorem createRoot_meets (hl : Formatted d) (name : List UInt8) (stack : Memory) :
    Meets (fun r => exists d1, Created d InodeType.directory r.1 d1 ∧ Rooted d1 r.1 r.2)
      (fun e => e = Stop.exit ∧ (Not (FreeInode d) ∨ d.free = 0))
      (createFile 0 0 InodeType.directory 0 name stack d) := by
  unfold createFile
  apply Meets.bind ((createInode_meets hl 0 0 InodeType.directory).mono (fun _ hr => hr)
    (fun e he => And.intro he.left (Or.inl he.right)))
  intro r hr
  rcases r with ⟨inum, d1⟩
  have hc := hr.right
  have hl1 := hl.congr hc.sb
  have hempty : (iread d1 inum).size.toNat = 0 := by
    rw [hc.size]
    rfl
  have hdir : Directory d1 inum := by
    constructor
    · exact hc.stored
    · rw [hc.type]
      decide
  have hfree := hc.free_eq hl
  dsimp only
  rw [if_neg (not_not_intro rfl), ok_bind, if_pos rfl, if_pos rfl]
  apply Meets.bind ((dirMake_meets hl1 hdir stack hempty).mono (fun _ hd => hd) _)
  · exact fun d2 hd2 => ⟨d1, hc, hd2⟩
  · intro e he
    have hlt : d1.free < 1 := he.right
    exact And.intro he.left (Or.inr (by lia))

end Root

/-!
# A new image
-/

def newImage (sb : Superblock) : Disk where
  sb := sb
  blk := fun _ => Bytes.zero

theorem iread_newImage_type (sb : Superblock) (inum : UInt32) :
    (iread (newImage sb) inum).type = InodeType.none.code :=
  Bytes.word_zero _

theorem free_newImage (sb : Superblock) : (newImage sb).free = 8 * sb.bmapBytes.toNat := by
  have hused : forall k, (newImage sb).volume.used k = false := by
    intro k
    unfold Volume.used Bytes.bit
    show ((Bytes.zero : Fs.Log.Block).mem _ &&& _ != 0) = false
    rw [Bytes.mem_zero]
    simp
  unfold Disk.free Volume.freeBits
  rw [Finset.filter_true_of_mem (fun k _ => hused k), Finset.card_range]
  unfold Superblock.bits
  rfl

theorem createRoot_newImage {sectorCnt : Int32} {sb : Superblock}
    (h : superblockInit sectorCnt = some sb) (name : List UInt8) (stack : Memory) :
    exists root d, createFile 0 0 InodeType.directory 0 name stack (newImage sb) =
        Except.ok (root, d) ∧
      Formatted d ∧ Directory d root ∧ (iread d root).size.toNat = 2 * direntSize ∧
        FreeInode d ∧ d.free + 1 = 8 * sb.bmapBytes.toNat := by
  have hc := superblockInit_computed h
  have hl : Formatted (newImage sb) := formatted_of_superblockInit h _
  have hinodes : (newImage sb).sb.ninodes.toNat = nfilesPerDisk := hc.ninodes
  have hfiles : nfilesPerDisk = 16384 := rfl
  have hbits := free_newImage sb
  have hbytes := hc.bmapBytes
  have hmin := hc.minimum
  have hin : forall j : UInt32, j.toNat ≤ 2 -> j < (newImage sb).sb.ninodes :=
    fun j hj => UInt32.lt_iff_toNat_lt.mpr (by lia)
  have hfree : FreeInode (newImage sb) :=
    ⟨1, UInt32.le_refl 1, hin 1 (Nat.le_succ 1), iread_newImage_type sb 1⟩
  have hrun := createRoot_meets hl name stack
  cases hresult : createFile 0 0 InodeType.directory 0 name stack (newImage sb) with
  | error e =>
      cases (hrun.of_error hresult).right with
      | inl hnone => exact absurd hfree hnone
      | inr hzero => lia
  | ok r =>
      rcases r with ⟨root, d⟩
      rcases hrun.of_ok hresult with ⟨d1, hcreated, hrooted⟩
      have hsb : d.sb = (newImage sb).sb := hrooted.sb.trans hcreated.sb
      have hl1 := hl.congr hcreated.sb
      have hother : forall j : UInt32, 1 ≤ j -> j.toNat ≤ 2 -> j ≠ root -> FreeInode d := by
        intro j hone hj hne
        have hj1 : j < d1.sb.ninodes := by
          rw [hcreated.sb]
          exact hin j hj
        refine ⟨j, hone, ?_, ?_⟩
        · rw [hsb]
          exact hin j hj
        · rw [hrooted.others j hj1 hne, hcreated.others j (hin j hj) hne]
          exact iread_newImage_type sb j
      refine ⟨root, d, rfl, ?_, hrooted.toDirectory, hrooted.size, ?_, ?_⟩
      · exact hl1.congr hrooted.sb
      · cases Classical.em ((1 : UInt32) = root) with
        | inl heq =>
            apply hother 2 (by decide) (Nat.le_refl 2)
            rw [← heq]
            decide
        | inr hne => exact hother 1 (UInt32.le_refl 1) (Nat.le_succ 1) hne
      · rw [← hbits, hrooted.paid]
        exact hcreated.free_eq hl

end Mkfs
end NicoOS
