import NicoOS.Mkfs.Root

/-!
# Files of the host on the image

`write_to_fsfile` has no check of the length.  It leaves with a message, or stores the file
as a whole, exactly where a block, an inode or the file of the host is missing before the
maximal length is reached, or where neither the directory nor the file gets longer than that.
-/

namespace NicoOS
namespace Mkfs

open Lib
open Fs
open Fs.Inode (Dinode InodeType blockOf)

/-- The program left with a message, or the inode has the length of the file and addresses
for all its bytes. -/
def RefusesOrStores (file : HostFile) : Except Stop (UInt32 × Disk) -> Prop
  | Except.ok (inum, d) =>
      (iread d inum).size.toNat = file.length ∧ file.length ≤ maxFileSize ∧
        forall bn, bn * blockSize < file.length ->
          bn < maxDataBlocks ∧ blockOf d.volume (iread d inum) bn ≠ 0
  | Except.error Stop.exit => True
  | Except.error Stop.overrun => False

/-- `create_file` and `dir_link` give the directory an entry. -/
def Linked (pinum : UInt32) (name : List UInt8) : Prop :=
  pinum ≠ 0 ∧ name.length < direntNameLength

instance (pinum : UInt32) (name : List UInt8) : Decidable (Linked pinum name) :=
  inferInstanceAs (Decidable (_ ∧ _))

def linkEnd (d : Disk) (pinum : UInt32) : Nat := (iread d pinum).size.toNat + direntSize

def linkCost (d : Disk) (pinum : UInt32) (name : List UInt8) : Nat :=
  if Linked pinum name then
    growCost (blocksOf (iread d pinum).size.toNat) (min (blocksOf (linkEnd d pinum)) maxDataBlocks)
  else
    0

/-- The directory does not get longer than a file can be. -/
def LinkFits (d : Disk) (pinum : UInt32) (name : List UInt8) : Prop :=
  Linked pinum name -> linkEnd d pinum ≤ maxFileSize

/-- The blocks that the file takes, up to the last one it can have. -/
def fileCost (file : HostFile) : Nat :=
  growCost 0 (min (blocksOf file.size.toNat) maxDataBlocks)

/-- Something runs out before the limit is reached, or the limit is not reached. -/
def WithinLimit (d : Disk) (pinum : UInt32) (file : HostFile) (name : List UInt8) : Prop :=
  file.loaded = false ∨ Not (FreeInode d) ∨ d.free < linkCost d pinum name ∨
    LinkFits d pinum name ∧
      (d.free < linkCost d pinum name + fileCost file ∨ file.length ≤ maxFileSize)

section Write

variable {d d' : Disk} {pinum inum : UInt32} {name : List UInt8}

/-- The new file next to its entry. -/
structure Entered (d : Disk) (pinum : UInt32) (name : List UInt8) (inum : UInt32)
    (d' : Disk) : Prop where
  fits : LinkFits d pinum name
  sb : d'.sb = d.sb
  stored : Stored d' inum
  size : (iread d' inum).size = 0
  paid : d'.free + linkCost d pinum name = d.free

/-- Where the entry does not get into the directory. -/
def LinkStops (d : Disk) (pinum : UInt32) (name : List UInt8) : Stop -> Prop
  | Stop.exit => d.free < linkCost d pinum name
  | Stop.overrun => Not (LinkFits d pinum name) ∧ linkCost d pinum name ≤ d.free

theorem blocksOf_le_max {n : Nat} (h : n ≤ maxFileSize) : blocksOf n ≤ maxDataBlocks := by
  unfold maxFileSize at h
  unfold blocksOf roundUp
  have hsize : blockSize = 512 := rfl
  lia

/-- The entry is appended to the directory, which is another inode. -/
theorem linked_meets (hl : Formatted d) {typ : InodeType} (hc : Created d typ inum d')
    (hlinked : Linked pinum name) (hdir : Directory d pinum) (stack : Memory) :
    Meets (Entered d pinum name inum) (LinkStops d pinum name)
      (dirLink pinum name inum stack d') := by
  have hfree := hc.free_eq hl
  have hcost : linkCost d pinum name = growCost (blocksOf (iread d pinum).size.toNat)
      (min (blocksOf (linkEnd d pinum)) maxDataBlocks) := if_pos hlinked
  have hne : pinum ≠ inum := by
    intro heq
    rw [heq] at hdir
    exact hdir.typed hc.free
  have hread := hc.others pinum hdir.inside hne
  have hstored := hdir.toStored.tableOnly hl hc.toTableOnly hread
  have hfinish : linkEnd d pinum = (iread d' pinum).size.toNat + direntSize := by
    rw [hread]
    rfl
  have happend := dirLink_meets (hl.congr hc.sb) hstored hlinked.right inum stack hfinish
  rw [hread] at happend
  apply happend.mono
  · intro d2 hd2
    rcases hd2 with ⟨hsmall, happended⟩
    have hself := happended.others inum hc.present hne.symm
    have hpaid := happended.paid
    constructor
    · exact fun _ => hsmall
    · exact happended.sb.trans hc.sb
    · apply stored_of_empty
      · rw [happended.sb]
        exact hc.present
      · rw [hself]
        exact hc.size
      · rw [hself]
        exact hc.addrs
    · rw [hself]
      exact hc.size
    · rw [hread] at hpaid
      rw [hcost, Nat.min_eq_left (blocksOf_le_max hsmall), ← hfree]
      exact hpaid
  · intro e he
    cases e with
    | exit =>
        show d.free < linkCost d pinum name
        rw [hcost, ← hfree]
        exact he
    | overrun =>
        have hgrow : blocksOf (iread d pinum).size.toNat ≤
            min (blocksOf (linkEnd d pinum)) maxDataBlocks :=
          le_min (blocksOf_mono (Nat.le_add_right _ _)) (blocksOf_le_max hdir.small)
        constructor
        · exact fun hfits => absurd (hfits hlinked) (Nat.not_le_of_lt he.left)
        · rw [hcost, ← hfree]
          exact Nat.le_trans (growCost_mono hgrow (Nat.min_le_right _ _)) he.right

theorem entered_of_not_linked (hl : Formatted d) {typ : InodeType} (hc : Created d typ inum d')
    (hunlinked : Not (Linked pinum name)) : Entered d pinum name inum d' where
  fits := fun hlinked => absurd hlinked hunlinked
  sb := hc.sb
  stored := hc.stored
  size := hc.size
  paid := by
    rw [linkCost, if_neg hunlinked, hc.free_eq hl, Nat.add_zero]

theorem link_meets (hl : Formatted d) {typ : InodeType} (hc : Created d typ inum d')
    (hparent : Linked pinum name -> Directory d pinum) (stack : Memory) :
    Meets (Entered d pinum name inum) (LinkStops d pinum name)
      (if pinum ≠ 0 then dirLink pinum name inum stack d' else Except.ok d') := by
  cases Classical.em (Linked pinum name) with
  | inl hlinked =>
      rw [if_pos hlinked.left]
      exact linked_meets hl hc hlinked (hparent hlinked) stack
  | inr hunlinked =>
      have hentered := entered_of_not_linked hl hc hunlinked
      split
      · rename_i hne
        have hlong : name.length ≥ direntNameLength :=
          Nat.le_of_not_lt (fun hlt => hunlinked (And.intro hne hlt))
        unfold dirLink
        rw [if_pos hlong]
        exact hentered
      · exact hentered

def CreateStops (d : Disk) (pinum : UInt32) (name : List UInt8) : Stop -> Prop
  | Stop.exit => Not (FreeInode d) ∨ d.free < linkCost d pinum name
  | Stop.overrun => FreeInode d ∧ Not (LinkFits d pinum name) ∧ linkCost d pinum name ≤ d.free

theorem createFile_meets (hl : Formatted d) (hparent : Linked pinum name -> Directory d pinum)
    (major minor : Int32) {typ : InodeType} (htyp : typ ≠ InodeType.directory)
    (stack : Memory) :
    Meets (fun r => FreeInode d ∧ Entered d pinum name r.1 r.2) (CreateStops d pinum name)
      (createFile major minor typ pinum name stack d) := by
  unfold createFile
  apply Meets.bind ((createInode_meets hl major minor typ).mono (fun _ hr => hr) _)
  · intro r hr
    rcases r with ⟨inum, d'⟩
    rcases hr with ⟨hone, hcreated⟩
    have hfree : FreeInode d := ⟨inum, hone, hcreated.inside, hcreated.free⟩
    have hlink := link_meets hl hcreated hparent stack
    apply Meets.bind (hlink.mono (fun _ hd => hd) _)
    · intro d2 hd2
      rw [if_neg htyp]
      exact And.intro hfree hd2
    · intro e he
      cases e with
      | exit => exact Or.inr he
      | overrun => exact And.intro hfree he
  · intro e he
    rw [he.left]
    exact Or.inl he.right

/-- What is on the image after a call that returns. -/
structure Written (d : Disk) (pinum : UInt32) (file : HostFile) (name : List UInt8)
    (r : UInt32 × Disk) : Prop where
  loaded : file.loaded = true
  inode : FreeInode d
  fits : LinkFits d pinum name
  enough : linkCost d pinum name + fileCost file ≤ d.free
  small : file.size.toNat ≤ maxFileSize
  stored : Stored r.2 r.1
  size : (iread r.2 r.1).size.toNat = file.size.toNat

def WriteStops (d : Disk) (pinum : UInt32) (file : HostFile) (name : List UInt8) : Stop -> Prop
  | Stop.exit => file.loaded = false ∨ Not (FreeInode d) ∨ d.free < linkCost d pinum name ∨
      LinkFits d pinum name ∧ d.free < linkCost d pinum name + fileCost file
  | Stop.overrun => file.loaded = true ∧ FreeInode d ∧ linkCost d pinum name ≤ d.free ∧
      (LinkFits d pinum name -> linkCost d pinum name + fileCost file ≤ d.free ∧
        maxFileSize < file.size.toNat)

theorem writeToFsfile_meets (hl : Formatted d)
    (hparent : Linked pinum name -> Directory d pinum) (file : HostFile) (stack : Memory) :
    Meets (Written d pinum file name) (WriteStops d pinum file name)
      (writeToFsfile pinum file name stack d) := by
  have hmin := Nat.min_le_right (blocksOf file.size.toNat) maxDataBlocks
  unfold writeToFsfile
  split
  · rename_i hloaded
    have hfile : InodeType.file ≠ InodeType.directory := InodeType.noConfusion
    apply Meets.bind ((createFile_meets hl hparent 0 0 hfile stack).mono (fun _ hr => hr) _)
    · intro r hr
      rcases r with ⟨inum, d'⟩
      rcases hr with ⟨hfree, hentered⟩
      dsimp only at hentered
      have hpaid := hentered.paid
      have hl' := hl.congr hentered.sb
      have hempty : (iread d' inum).size.toNat = 0 := by
        rw [hentered.size]
        rfl
      have hfinish : file.size.toNat = (iread d' inum).size.toNat + file.size.toNat := by
        rw [hempty, Nat.zero_add]
      have happend := iappend_meets hl' hentered.stored file.content file.size hfinish
      rw [hempty] at happend
      apply Meets.bind (happend.mono (fun _ hd => hd) _)
      · intro d2 hd2
        rcases hd2 with ⟨hsmall, happended⟩
        have hspent : d2.free + growCost (blocksOf (iread d' inum).size.toNat)
          (blocksOf file.size.toNat) = d'.free := happended.paid
        have hcost : fileCost file = growCost (blocksOf 0) (blocksOf file.size.toNat) := by
          unfold fileCost
          rw [Nat.min_eq_left (blocksOf_le_max hsmall)]
          rfl
        rw [hempty, ← hcost] at hspent
        constructor
        · exact hloaded
        · exact hfree
        · exact hentered.fits
        · lia
        · exact hsmall
        · exact happended.stored
        · exact happended.size
      · intro e he
        cases e with
        | exit =>
            have hlt : d'.free < fileCost file := he
            exact Or.inr (Or.inr (Or.inr (And.intro hentered.fits (by lia))))
        | overrun =>
            have hle : growCost 0 maxDataBlocks ≤ d'.free := he.right
            have hcost : fileCost file ≤ growCost 0 maxDataBlocks :=
              growCost_mono (Nat.zero_le _) hmin
            exact ⟨hloaded, hfree, by lia, fun _ => And.intro (by lia) he.left⟩
    · intro e he
      cases e with
      | exit =>
          cases he with
          | inl hnone => exact Or.inr (Or.inl hnone)
          | inr hlt => exact Or.inr (Or.inr (Or.inl hlt))
      | overrun =>
          rcases he with ⟨hfree, hfits, hle⟩
          exact ⟨hloaded, hfree, hle, fun h => absurd h hfits⟩
  · rename_i hloaded
    exact Or.inl (Bool.eq_false_iff.mpr hloaded)

theorem size_le_length (file : HostFile) : file.size.toNat ≤ file.length := by
  unfold HostFile.size
  rw [UInt32.toNat_ofNat']
  exact Nat.mod_le _ _

theorem size_eq_length {file : HostFile} (h : file.length ≤ maxFileSize) :
    file.size.toNat = file.length := by
  have hmax : maxFileSize = 71168 := rfl
  unfold HostFile.size
  exact UInt32.toNat_ofNat_of_lt' (by lia)

/-- A file that was written has its length and its blocks, unless the length was cut off. -/
theorem Written.complete_iff {file : HostFile} {r : UInt32 × Disk}
    (h : Written d pinum file name r) :
    RefusesOrStores file (Except.ok r) <-> file.length ≤ maxFileSize := by
  have hsize : blockSize = 512 := rfl
  constructor
  · exact fun hstored => hstored.right.left
  · intro hle
    have hlen := size_eq_length hle
    have hread := h.size
    rw [hlen] at hread
    refine ⟨hread, hle, ?_⟩
    intro bn hbn
    have hlt : bn < blocksOf file.length := by
      unfold blocksOf roundUp
      lia
    have hwhole := h.stored.whole
    rw [hread] at hwhole
    exact And.intro (Nat.lt_of_lt_of_le hlt hwhole.le) ((hwhole.block bn).mpr hlt)

end Write

/-- `write_to_fsfile` stores the file completely or leaves with a message exactly where the
limit is not passed before something runs out. -/
theorem writeToFsfile_complete_iff (d : Disk) (pinum : UInt32) (file : HostFile)
    (name : List UInt8) (stack : Memory) (hl : Formatted d)
    (hparent : Linked pinum name -> Directory d pinum) :
    RefusesOrStores file (writeToFsfile pinum file name stack d) <->
      WithinLimit d pinum file name := by
  have hrun := writeToFsfile_meets hl hparent file stack
  have hlength := size_le_length file
  cases hresult : writeToFsfile pinum file name stack d with
  | ok r =>
      have hwritten := hrun.of_ok hresult
      have henough := hwritten.enough
      rw [hwritten.complete_iff]
      constructor
      · exact fun hle => Or.inr (Or.inr (Or.inr (And.intro hwritten.fits (Or.inr hle))))
      · intro hwithin
        rcases hwithin with hloaded | hnone | hlt | hboth
        · rw [hwritten.loaded] at hloaded
          cases hloaded
        · exact absurd hwritten.inode hnone
        · lia
        · cases hboth.right with
          | inl hlt => lia
          | inr hle => exact hle
  | error e =>
      have hstops := hrun.of_error hresult
      cases e with
      | exit =>
          constructor
          · intro _
            rcases hstops with hloaded | hnone | hlt | hboth
            · exact Or.inl hloaded
            · exact Or.inr (Or.inl hnone)
            · exact Or.inr (Or.inr (Or.inl hlt))
            · exact Or.inr (Or.inr (Or.inr (And.intro hboth.left (Or.inl hboth.right))))
          · exact fun _ => True.intro
      | overrun =>
          rcases hstops with ⟨hloaded, hfree, hle, hbehind⟩
          constructor
          · exact fun h => h.elim
          · intro hwithin
            rcases hwithin with hnot | hnone | hlt | hboth
            · rw [hloaded] at hnot
              cases hnot
            · exact absurd hfree hnone
            · lia
            · rcases hbehind hboth.left with ⟨henough, hlong⟩
              cases hboth.right with
              | inl hlt => lia
              | inr hshort => lia

/-- A file of zeros that can be opened, held in memory and read. -/
def zeroFile (length : Nat) : HostFile where
  length := length
  content := fun _ => 0
  opens := true
  fits := true
  reads := true

/-- The root directory of the 80 MB image of `make_fs_img.sh`. -/
theorem createRoot_80MB : exists sb root d, superblockInit 163840 = some sb ∧
    createFile 0 0 InodeType.directory 0 [47] (fun _ => 0) (newImage sb) = Except.ok (root, d) ∧
      Formatted d ∧ Directory d root ∧ (iread d root).size.toNat = 128 ∧ FreeInode d ∧
        1000 ≤ d.free := by
  have hbytes : (superblockInit 163840).map (fun sb => sb.bmapBytes.toNat) = some 20178 := by
    decide
  cases h : superblockInit 163840 with
  | none =>
      rw [h] at hbytes
      cases hbytes
  | some sb =>
      rw [h] at hbytes
      simp only [Option.map_some, Option.some.injEq] at hbytes
      rcases createRoot_newImage h [47] (fun _ => 0) with
        ⟨root, d, hrun, hl, hdir, hsize, hfree, hpaid⟩
      exact ⟨sb, root, d, rfl, hrun, hl, hdir, hsize, hfree, by lia⟩

/-- A file of the maximal length is stored in the root directory of that image. -/
theorem writeToFsfile_complete_80MB : exists sb root d, superblockInit 163840 = some sb ∧
    createFile 0 0 InodeType.directory 0 [47] (fun _ => 0) (newImage sb) = Except.ok (root, d) ∧
      RefusesOrStores (zeroFile 71168)
        (writeToFsfile root (zeroFile 71168) [97] (fun _ => 0) d) := by
  rcases createRoot_80MB with ⟨sb, root, d, hsb, hrun, hl, hdir, hsize, hfree, hblocks⟩
  have hfits : LinkFits d root [97] := by
    intro _
    unfold linkEnd
    rw [hsize]
    decide
  exact ⟨sb, root, d, hsb, hrun,
    (writeToFsfile_complete_iff d root (zeroFile 71168) [97] (fun _ => 0) hl
      (fun _ => hdir)).mpr (Or.inr (Or.inr (Or.inr (And.intro hfits (Or.inr (Nat.le_refl _))))))⟩

/-- One more byte, and `bmap` uses the entry behind the indirect block. -/
theorem writeToFsfile_overruns_80MB : exists sb root d, superblockInit 163840 = some sb ∧
    createFile 0 0 InodeType.directory 0 [47] (fun _ => 0) (newImage sb) = Except.ok (root, d) ∧
      Not (RefusesOrStores (zeroFile 71169)
        (writeToFsfile root (zeroFile 71169) [97] (fun _ => 0) d)) := by
  rcases createRoot_80MB with ⟨sb, root, d, hsb, hrun, hl, hdir, hsize, hfree, hblocks⟩
  have hcost : linkCost d root [97] ≤ 2 := by
    unfold linkCost linkEnd
    rw [hsize]
    split
    · decide
    · exact Nat.zero_le _
  have hneed : fileCost (zeroFile 71169) = 140 := by decide
  have hmeets : Meets (Written d root (zeroFile 71169) [97])
      (WriteStops d root (zeroFile 71169) [97])
      (writeToFsfile root (zeroFile 71169) [97] (fun _ => 0) d) :=
    writeToFsfile_meets hl (fun _ => hdir) _ _
  refine ⟨sb, root, d, hsb, hrun, ?_⟩
  cases hresult : writeToFsfile root (zeroFile 71169) [97] (fun _ => 0) d with
  | ok r => exact fun h => absurd h.right.left (by decide)
  | error e =>
      cases e with
      | exit =>
          rcases hmeets.of_error hresult with hloaded | hnone | hlt | hboth
          · cases hloaded
          · exact absurd hfree hnone
          · lia
          · lia
      | overrun => exact fun h => h

end Mkfs
end NicoOS
