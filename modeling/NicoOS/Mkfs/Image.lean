import NicoOS.Lib.Transition
import NicoOS.Mkfs.Root

/-!
# Images that `mkfs` makes

On every image that `mkfs` gets to, the files in use have the blocks below their sizes, and
no two of them share one.
-/

namespace NicoOS
namespace Mkfs

open Lib
open Fs
open Fs.Inode (Dinode InodeType InUse Slot slotAddr)

/-- The inode is in use. -/
def Used (d : Disk) (inum : UInt32) : Prop :=
  inum < d.sb.ninodes ∧ (iread d inum).type ≠ InodeType.none.code

structure Image (d : Disk) : Prop where
  formatted : Formatted d
  stored : forall j, Used d j -> Stored d j
  apart : forall j k, Used d j -> Used d k -> j ≠ k -> forall s t,
    slotAddr d.volume (iread d j) s ≠ 0 ->
      slotAddr d.volume (iread d j) s ≠ slotAddr d.volume (iread d k) t

/-- One file was made or changed; its blocks are its own or were free. -/
structure Changes (d : Disk) (inum : UInt32) (d' : Disk) : Prop where
  sb : d'.sb = d.sb
  stored : Stored d' inum
  typed : (iread d' inum).type ≠ InodeType.none.code
  others : forall j, j < d.sb.ninodes -> j ≠ inum -> iread d' j = iread d j
  use : forall a, InUse d.volume a -> InUse d'.volume a
  slots : forall j, Used d j -> j ≠ inum -> forall s,
    slotAddr d'.volume (iread d j) s = slotAddr d.volume (iread d j) s
  owns : forall s, InUse d.volume (slotAddr d'.volume (iread d' inum) s) -> Used d inum ∧
    exists t, slotAddr d'.volume (iread d' inum) s = slotAddr d.volume (iread d inum) t

section Changes

variable {d d' : Disk} {inum : UInt32}

theorem Changes.used (h : Changes d inum d') {j : UInt32} (hj : Used d j) : Used d' j := by
  constructor
  · rw [h.sb]
    exact hj.left
  · cases Classical.em (j = inum) with
    | inl heq =>
        rw [heq]
        exact h.typed
    | inr hne =>
        rw [h.others j hj.left hne]
        exact hj.right

theorem Changes.used_of_ne (h : Changes d inum d') {j : UInt32} (hj : Used d' j)
    (hne : j ≠ inum) : Used d j := by
  have hin : j < d.sb.ninodes := by
    rw [← h.sb]
    exact hj.left
  constructor
  · exact hin
  · rw [← h.others j hin hne]
    exact hj.right

theorem Changes.slot (h : Changes d inum d') {j : UInt32} (hj : Used d j) (hne : j ≠ inum)
    (s : Slot) : slotAddr d'.volume (iread d' j) s = slotAddr d.volume (iread d j) s := by
  rw [h.others j hj.left hne]
  exact h.slots j hj hne s

theorem Changes.image (h : Changes d inum d') (hi : Image d) : Image d' := by
  have hapart : forall k, Used d k -> k ≠ inum -> forall s t,
      slotAddr d.volume (iread d k) t ≠ 0 ->
        slotAddr d'.volume (iread d' inum) s ≠ slotAddr d.volume (iread d k) t := by
    intro k hk hne s t hzero heq
    have huse := (hi.stored k hk).whole.inUse t hzero
    rw [← heq] at huse
    rcases h.owns s huse with ⟨hused, r, hr⟩
    exact hi.apart k inum hk hused hne t r hzero (heq.symm.trans hr)
  constructor
  · exact hi.formatted.congr h.sb
  · intro j hj
    cases Classical.em (j = inum) with
    | inl heq =>
        rw [heq]
        exact h.stored
    | inr hne =>
        have hused := h.used_of_ne hj hne
        have hold := hi.stored j hused
        have hread := h.others j hused.left hne
        constructor
        · exact hj.left
        · rw [hread]
          exact hold.small
        · rw [hread]
          exact hold.whole.congr (h.slots j hused hne) h.use
  · intro j k hj hk hne s t hzero
    cases Classical.em (j = inum) with
    | inl heq =>
        have hkne : k ≠ inum := fun hkeq => hne (heq.trans hkeq.symm)
        have hused := h.used_of_ne hk hkne
        rw [heq] at hzero ⊢
        rw [h.slot hused hkne]
        intro hsame
        rw [hsame] at hzero
        exact hapart k hused hkne s t hzero hsame
    | inr hjne =>
        have hused := h.used_of_ne hj hjne
        rw [h.slot hused hjne] at hzero ⊢
        cases Classical.em (k = inum) with
        | inl hkeq =>
            rw [hkeq]
            exact fun hsame => hapart j hused hjne t s hzero hsame.symm
        | inr hkne =>
            rw [h.slot (h.used_of_ne hk hkne) hkne]
            exact hi.apart j k hused (h.used_of_ne hk hkne) hne s t hzero

theorem Created.changes {typ : InodeType} (h : Created d typ inum d') (hi : Image d)
    (htyp : typ ≠ InodeType.none) : Changes d inum d' where
  sb := h.sb
  stored := h.stored
  typed := by
    rw [h.type]
    cases typ with
    | none => exact absurd rfl htyp
    | _ => decide
  others := h.others
  use := fun a ha => (h.inUse hi.formatted a).mpr ha
  slots := fun j hj _ s => h.slotAddr hi.formatted (hi.stored j hj).whole.toGrown s
  owns := by
    intro s hs
    rw [slotAddr_of_empty _ h.addrs] at hs
    rcases hs with ⟨k, hk, -, heq⟩
    have hl : d.volume.sb.LaidOut := hi.formatted
    exact absurd heq.symm (hl.dataBlock_ne_zero hk)

theorem Appended.changes {finish : Nat} (h : Appended d inum finish d') (hi : Image d)
    (hused : Used d inum) : Changes d inum d' where
  sb := h.sb
  stored := h.stored
  typed := by
    rw [h.type]
    exact hused.right
  others := h.others
  use := h.widens.use
  slots := by
    intro j hj hne s
    apply Inode.slotAddr_congr
    intro hind
    have huse := (hi.stored j hj).whole.indirect_inUse hind
    apply h.widens.confined _ huse
    exact fun s => hi.apart j inum hj hused hne (Slot.addr ndirectDataBlocks) s hind
  owns := fun s hs => And.intro hused (h.widens.owns s hs)

theorem iwrite_changes (hi : Image d) (hused : Used d inum) {i : Dinode}
    (haddrs : i.addrs = (iread d inum).addrs) (hsize : i.size = (iread d inum).size)
    (htype : i.type = (iread d inum).type) : Changes d inum (iwrite i inum d) := by
  have hstored := hi.stored inum hused
  have htable := tableOnly_iwrite hi.formatted i hused.left
  have hwidens := htable.widens hi.formatted hstored.whole.toGrown haddrs
  constructor
  · rfl
  · exact hstored.update hi.formatted haddrs hsize
  · rw [iread_iwrite_self, htype]
    exact hused.right
  · exact fun j hj hne => iread_iwrite_of_ne hi.formatted i hused.left hj hne
  · exact hwidens.use
  · exact fun j hj _ s => htable.slotAddr hi.formatted (hi.stored j hj).whole.toGrown s
  · intro s hs
    rw [iread_iwrite_self] at hs ⊢
    exact And.intro hused (hwidens.owns s hs)

end Changes

/-!
# Calls
-/

/-- An image again, with the inodes that were in use. -/
structure Goes (d d' : Disk) : Prop where
  image : Image d'
  used : forall j, Used d j -> Used d' j

section Goes

variable {d d' d'' : Disk} {inum pinum : UInt32}

theorem Goes.trans (h1 : Goes d d') (h2 : Goes d' d'') : Goes d d'' where
  image := h2.image
  used := fun j hj => h2.used j (h1.used j hj)

theorem Changes.goes (h : Changes d inum d') (hi : Image d) : Goes d d' where
  image := h.image hi
  used := fun _ hj => h.used hj

theorem iappend_goes (hi : Image d) (hused : Used d inum) (src : Memory) (sz : UInt32) :
    Meets (Goes d) (fun _ => True) (iappend inum src sz d) := by
  apply (iappend_meets hi.formatted (hi.stored inum hused) src sz rfl).mono
  · exact fun d' hd => (hd.right.changes hi hused).goes hi
  · exact fun _ _ => True.intro

theorem dirLink_goes (hi : Image d) (hused : Used d inum) (name : List UInt8) (child : UInt32)
    (stack : Memory) : Meets (Goes d) (fun _ => True) (dirLink inum name child stack d) := by
  unfold dirLink
  split
  · exact ⟨hi, fun _ hj => hj⟩
  · exact iappend_goes hi hused _ _

theorem dirMake_goes (hi : Image d) (hparent : Used d pinum) (hchild : Used d inum)
    (stack : Memory) : Meets (Goes d) (fun _ => True) (dirMake pinum inum stack d) := by
  unfold dirMake
  apply Meets.bind (dirLink_goes hi hchild [46] inum stack)
  intro d1 h1
  apply Meets.bind (dirLink_goes h1.image (h1.used inum hchild) [46, 46] pinum stack)
  intro d2 h2
  have hgoes := h1.trans h2
  have hchanges : Changes d2 pinum (iwrite
      { iread d2 pinum with nlink := (iread d2 pinum).nlink + 1 } pinum d2) :=
    iwrite_changes h2.image (hgoes.used pinum hparent) rfl rfl rfl
  exact hgoes.trans (hchanges.goes h2.image)

theorem createFile_goes (hi : Image d) (hparent : pinum ≠ 0 -> Used d pinum)
    (major minor : Int32) {typ : InodeType} (htyp : typ ≠ InodeType.none) (name : List UInt8)
    (stack : Memory) :
    Meets (fun r => Goes d r.2 ∧ Used r.2 r.1) (fun _ => True)
      (createFile major minor typ pinum name stack d) := by
  unfold createFile
  apply Meets.bind ((createInode_meets hi.formatted major minor typ).mono (fun _ hr => hr)
    (fun _ _ => True.intro))
  intro r hr
  rcases r with ⟨inum, d1⟩
  have hchanges := hr.right.changes hi htyp
  have hgoes := hchanges.goes hi
  have hnew : Used d1 inum := And.intro hchanges.stored.inside hchanges.typed
  have hlink : Meets (Goes d1) (fun _ => True)
      (if pinum ≠ 0 then dirLink pinum name inum stack d1 else Except.ok d1) := by
    split
    · rename_i hne
      exact dirLink_goes hgoes.image (hgoes.used pinum (hparent hne)) name inum stack
    · exact ⟨hgoes.image, fun _ hj => hj⟩
  apply Meets.bind hlink
  intro d2 h2
  have hgoes2 := hgoes.trans h2
  split
  · have hdir : Used d2 (if pinum = 0 then inum else pinum) := by
      split
      · exact h2.used inum hnew
      · rename_i hne
        exact hgoes2.used pinum (hparent hne)
    apply Meets.bind (dirMake_goes h2.image hdir (h2.used inum hnew) stack)
    intro d3 h3
    exact And.intro (hgoes2.trans h3) (h3.used inum (h2.used inum hnew))
  · exact And.intro hgoes2 (h2.used inum hnew)

theorem writeToFsfile_goes (hi : Image d) (hparent : pinum ≠ 0 -> Used d pinum)
    (file : HostFile) (name : List UInt8) (stack : Memory) :
    Meets (fun r => Goes d r.2) (fun _ => True) (writeToFsfile pinum file name stack d) := by
  have hfile : InodeType.file ≠ InodeType.none := InodeType.noConfusion
  unfold writeToFsfile
  split
  · apply Meets.bind (createFile_goes hi hparent 0 0 hfile name stack)
    intro r hr
    rcases hr with ⟨hgoes, hnew⟩
    apply Meets.bind (iappend_goes hgoes.image hnew file.content file.size)
    exact fun d2 h2 => hgoes.trans h2
  · exact True.intro

end Goes

/-!
# Runs
-/

/-- A call of `main`: a new file, or a file of the host. -/
inductive Call where
  | create (major minor : Int32) (typ : InodeType) (name : List UInt8)
  | write (file : HostFile) (name : List UInt8)

/-- A call below the inode `pinum`, with what the stack holds. -/
structure Request where
  pinum : UInt32
  call : Call
  stack : Memory

/-- The image behind the call, unless the program left. -/
def perform (d : Disk) (q : Request) : Option Disk :=
  let r := match q.call with
    | Call.create major minor typ name => createFile major minor typ q.pinum name q.stack d
    | Call.write file name => writeToFsfile q.pinum file name q.stack d
  match r with
  | Except.ok (_, d) => some d
  | Except.error _ => none

/-- The files of `main` are made below files of the image, the root apart. -/
def Proper (d : Disk) (q : Request) : Prop :=
  (q.pinum ≠ 0 -> Used d q.pinum) ∧ forall major minor typ name,
    q.call = Call.create major minor typ name -> typ ≠ InodeType.none

theorem perform_image {d d' : Disk} {q : Request} (hi : Image d) (hq : Proper d q)
    (h : perform d q = some d') : Image d' := by
  rcases q with ⟨pinum, call, stack⟩
  cases call with
  | create major minor typ name =>
      have hcreate := createFile_goes hi hq.left major minor (hq.right _ _ _ _ rfl) name stack
      unfold perform at h
      dsimp only at h
      split at h
      · rename_i hrun
        cases h
        exact (hcreate.of_ok hrun).left.image
      · cases h
  | write file name =>
      have hwrite := writeToFsfile_goes hi hq.left file name stack
      unfold perform at h
      dsimp only at h
      split at h
      · rename_i hrun
        cases h
        exact (hwrite.of_ok hrun).image
      · cases h

theorem newImage_image {sectorCnt : Int32} {sb : Superblock}
    (h : superblockInit sectorCnt = some sb) : Image (newImage sb) := by
  have hunused : forall j, Not (Used (newImage sb) j) :=
    fun j hj => hj.right (iread_newImage_type sb j)
  constructor
  · exact formatted_of_superblockInit h _
  · exact fun j hj => absurd hj (hunused j)
  · exact fun j k hj => absurd hj (hunused j)

theorem image_of_run {sectorCnt : Int32} {sb : Superblock}
    (h : superblockInit sectorCnt = some sb) {d : Disk}
    (hrun : Reaches perform Proper (newImage sb) d) : Image d :=
  hrun.invariant (newImage_image h) (fun _ _ _ hi hq hstep => perform_image hi hq hstep)

/-- In every run of `mkfs` the files that are in use meet what a call asks of its directory. -/
theorem directory_of_run {sectorCnt : Int32} {sb : Superblock}
    (h : superblockInit sectorCnt = some sb) {d : Disk}
    (hrun : Reaches perform Proper (newImage sb) d) {pinum : UInt32} (hused : Used d pinum) :
    Formatted d ∧ Directory d pinum := by
  have himage := image_of_run h hrun
  exact And.intro himage.formatted ⟨himage.stored pinum hused, hused.right⟩

end Mkfs
end NicoOS
