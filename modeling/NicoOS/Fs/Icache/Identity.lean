import NicoOS.Fs.Icache.Places

/-!
# Identity of cached inodes

Every step of every task keeps the invariant, so a place stays with its inode as long as
it has a reference, and an inode is freed by the task that has the last one.
-/

namespace NicoOS
namespace Fs
namespace Icache

open Inode (InodeType Dinode nicache)
open Lib

set_option linter.unusedSectionVars false

section Invariant

variable {T D : Type} [DecidableEq T] [DecidableEq D]

/-!
# Steps
-/

section Steps

variable {s s' : State T D} {t : T} {i : Nat}

theorem iget_cases {disk : D} {inum : UInt32} (hrun : iget t disk inum s = some s') :
    (exists i, s.findInode disk inum = some i ∧ s' = s.addRef i t) ∨
      (s.findInode disk inum = none ∧
        exists i, s.findEmpty = some i ∧ s' = s.occupy i disk inum t) := by
  unfold iget at hrun
  split at hrun
  · rename_i i hfound
    cases hrun
    exact Or.inl ⟨i, hfound, rfl⟩
  · rename_i hmiss
    split at hrun
    · rename_i i hplace
      cases hrun
      exact Or.inr ⟨hmiss, i, hplace, rfl⟩
    · cases hrun

theorem inodeAlloc_cases {disk : D} {inum : UInt32} {typ : InodeType}
    (hrun : inodeAlloc t disk inum typ s = some s') :
    (s.stored disk inum).type = InodeType.none.code ∧
      iget t disk inum (s.setStored disk inum (Dinode.fresh typ)) = some s' := by
  unfold inodeAlloc at hrun
  split at hrun
  · rename_i hfree
    exact ⟨hfree, hrun⟩
  · cases hrun

theorem inodeLock_cases (hrun : inodeLock t i s = some s') :
    (s.icache i).sem = none ∧
      (((s.icache i).valid = true ∧ s' = s.setSem i (some t)) ∨
        (Not ((s.icache i).valid = true) ∧
          s' = (s.setSem i (some t)).setPhase t (Phase.loading i))) := by
  unfold inodeLock at hrun
  dsimp only at hrun
  split at hrun
  · rename_i hcond
    split at hrun
    · rename_i hvalid
      cases hrun
      exact ⟨hcond.right, Or.inl ⟨hvalid, rfl⟩⟩
    · rename_i hvalid
      cases hrun
      exact ⟨hcond.right, Or.inr ⟨hvalid, rfl⟩⟩
  · cases hrun

theorem inodeLoad_cases (hrun : inodeLoad t i s = some s') :
    s.phase t = Phase.loading i ∧ InUse (s.home i) ∧
      s' = (s.setInode i { s.icache i with diskInode := s.home i, valid := true }).setPhase t
        Phase.idle := by
  unfold inodeLoad at hrun
  split at hrun
  · rename_i hcond
    cases hrun
    exact ⟨hcond.left, hcond.right, rfl⟩
  · cases hrun

theorem inodeUpdate_cases (hrun : inodeUpdate t i s = some s') :
    (s.icache i).sem = some t ∧ s' = s.setHome i (s.icache i).diskInode := by
  unfold inodeUpdate at hrun
  split at hrun
  · rename_i hsem
    cases hrun
    exact ⟨hsem, rfl⟩
  · cases hrun

theorem editInode_cases {d : Dinode} (hrun : editInode t i d s = some s') :
    (s.icache i).sem = some t ∧ s' = s.setDinode i d := by
  unfold editInode at hrun
  split at hrun
  · rename_i hsem
    cases hrun
    exact ⟨hsem, rfl⟩
  · cases hrun

theorem inodeUnlock_cases (hrun : inodeUnlock t i s = some s') :
    (s.icache i).sem = some t ∧ s' = s.setSem i none := by
  unfold inodeUnlock at hrun
  split at hrun
  · rename_i hcond
    cases hrun
    exact ⟨hcond.left, rfl⟩
  · cases hrun

/-- A put either begins to free the inode or gives back a reference. -/
theorem inodePut_cases (hrun : inodePut t i s = some s') :
    (s.icache i).sem = none ∧
      (((s.icache i).valid = true ∧ (s.icache i).diskInode.nlink = 0 ∧ (s.icache i).ref = 1 ∧
          s' = (s.setSem i (some t)).setPhase t (Phase.freeing i)) ∨
        s' = s.dropRef i t) := by
  unfold inodePut at hrun
  dsimp only at hrun
  split at hrun
  · rename_i hcond
    split at hrun
    · rename_i hfree
      cases hrun
      exact ⟨hcond.right, Or.inl ⟨hfree.left, hfree.right.left, hfree.right.right, rfl⟩⟩
    · cases hrun
      exact ⟨hcond.right, Or.inr rfl⟩
  · cases hrun

theorem truncateInode_cases {d : Dinode} (hrun : truncateInode t i d s = some s') :
    s.phase t = Phase.freeing i ∧ s' = (s.setDinode i d).setHome i d := by
  unfold truncateInode at hrun
  split at hrun
  · rename_i hfree
    cases hrun
    exact ⟨hfree, rfl⟩
  · cases hrun

/-- The inode of a place, as `inode_put` leaves it. -/
def State.cleared (s : State T D) (i : Nat) : Dinode :=
  { (s.icache i).diskInode with type := InodeType.none.code }

theorem freeInode_cases (hrun : freeInode t i s = some s') :
    s.phase t = Phase.freeing i ∧
      s' = (((s.setHome i (s.cleared i)).setInode i
        { s.icache i with diskInode := s.cleared i, valid := false, sem := none }).dropRef i
          t).setPhase t Phase.idle := by
  unfold freeInode at hrun
  split at hrun
  · rename_i hfree
    cases hrun
    exact ⟨hfree, rfl⟩
  · cases hrun

theorem Sound.not_freeing_of_ref (h : Sound s) (hidle : s.phase t = Phase.idle)
    (hmem : (t, i) ∈ s.refs) (u : T) : s.phase u ≠ Phase.freeing i := by
  intro hfree
  have hsame := h.only_ref hfree hmem
  rw [<- hsame, hidle] at hfree
  cases hfree

theorem iget_sound {disk : D} {inum : UInt32} (h : Sound s)
    (hused : InUse (s.stored disk inum))
    (hnot : forall j u, Has s j disk inum -> s.phase u ≠ Phase.freeing j)
    (hrun : iget t disk inum s = some s') : Sound s' := by
  rcases iget_cases hrun with ⟨i, hfound, rfl⟩ | ⟨hmiss, i, hplace, rfl⟩
  · have hhas := findInode_some hfound
    exact h.addRef hhas.left (fun u => hnot i u hhas)
  · rcases findEmpty_some hplace with ⟨hi, hempty⟩
    exact h.occupy hi hempty (findInode_none h hmiss) hused

theorem Sound.setStored (h : Sound s) {disk : D} {inum : UInt32} {d : Dinode}
    (hnew : forall j, Not (Has s j disk inum)) (hd : InUse d) :
    Sound (s.setStored disk inum d) where
  place j := by
    apply (h.place j).keep
    constructor
    · rfl
    · intro hpos
      exact if_neg (fun hsame => hnew j ⟨hpos, hsame.left, hsame.right⟩)
    · rfl
    · exact fun _ hu => hu
    · exact fun _ => Iff.rfl
    · exact fun _ => Iff.rfl
  unique := h.unique
  clear disk' inum' hfree := by
    unfold State.setStored at hfree ⊢
    dsimp only at hfree ⊢
    split at hfree
    · exact absurd hd hfree
    · rename_i hne
      rw [if_neg hne]
      exact h.clear disk' inum' hfree

theorem Sound.unused_unowned (h : Sound s) {disk : D} {inum : UInt32}
    (hfree : Not (InUse (s.stored disk inum))) (j : Nat) : Not (Has s j disk inum) := by
  intro hj
  have hused := (h.place j).used hj.left
  unfold State.home at hused
  rw [hj.right.left, hj.right.right] at hused
  exact hfree hused

theorem fresh_inUse {typ : InodeType} (h : typ ≠ InodeType.none) : InUse (Dinode.fresh typ) := by
  intro hcode
  cases typ with
  | none => exact h rfl
  | file => cases hcode
  | directory => cases hcode
  | device => cases hcode

theorem alloc_sound {disk : D} {inum : UInt32} {typ : InodeType} (h : Sound s)
    (htyp : typ ≠ InodeType.none) (hrun : inodeAlloc t disk inum typ s = some s') : Sound s' := by
  unfold inodeAlloc at hrun
  split at hrun
  · rename_i hfree
    have hnew := h.unused_unowned (fun hused => hused hfree)
    have hstored := h.setStored hnew (fresh_inUse htyp)
    apply iget_sound hstored _ _ hrun
    · unfold State.setStored
      dsimp only
      rw [if_pos ⟨rfl, rfl⟩]
      exact fresh_inUse htyp
    · exact fun j u hj => absurd hj (hnew j)
  · cases hrun

theorem not_busy (hidle : s.phase t = Phase.idle) (j : Nat) :
    s.phase t ≠ Phase.loading j ∧ s.phase t ≠ Phase.freeing j := by
  rw [hidle]
  constructor
  · intro e
    cases e
  · intro e
    cases e

/-- Nobody is inside a call at a place whose semaphore is free. -/
theorem PlaceSound.quiet (h : PlaceSound s i) (hsem : (s.icache i).sem = none) (u : T) :
    s.phase u ≠ Phase.loading i ∧ s.phase u ≠ Phase.freeing i := by
  constructor
  · intro hload
    have hbusy := (h.loading u hload).left
    rw [hsem] at hbusy
    cases hbusy
  · intro hfree
    have hbusy := (h.freeing u hfree).left
    rw [hsem] at hbusy
    cases hbusy

/-- A task takes the semaphore of an inode that is in the cache. -/
theorem Sound.take (h : Sound s) (hmem : (t, i) ∈ s.refs) (hsem : (s.icache i).sem = none)
    (hvalid : (s.icache i).valid = true) :
    Sound (s.setSem i (some t)) := by
  have hold := h.place i
  have hentry := setSem_self (s := s) (i := i) (some t)
  apply h.at_place hentry rfl rfl (fun hp => hp) _ (fun j hj => keeps_setInode hj) h.clear
  constructor
  · rw [setSem_self]
    exact hold.inRange
  · rw [setSem_self]
    exact hold.counted
  · rw [setSem_self]
    intro u hu
    cases hu
    exact hmem
  · rw [setSem_self, home_setSem]
    exact hold.used
  · rw [setSem_self]
    exact hold.typed
  · rw [setSem_self]
    intro _ _ hnone
    cases hnone
  · rw [setSem_self]
    exact fun u _ => Or.inl hvalid
  · exact fun u hu => absurd hu (hold.quiet hsem u).left
  · exact fun u hu => absurd hu (hold.quiet hsem u).right

/-- A task takes the semaphore of an inode that is not in the cache yet. -/
theorem Sound.take_load (h : Sound s) (hidle : s.phase t = Phase.idle) (hmem : (t, i) ∈ s.refs)
    (hsem : (s.icache i).sem = none) (hvalid : Not ((s.icache i).valid = true)) :
    Sound ((s.setSem i (some t)).setPhase t (Phase.loading i)) := by
  have hold := h.place i
  have hentry : ((s.setSem i (some t)).setPhase t (Phase.loading i)).icache i =
      { s.icache i with sem := some t } := setSem_self _
  apply h.at_place hentry rfl rfl (fun hp => hp) _ _ h.clear
  · constructor
    · rw [hentry]
      exact hold.inRange
    · rw [hentry]
      exact hold.counted
    · rw [hentry]
      intro u hu
      cases hu
      exact hmem
    · rw [hentry, home_setPhase, home_setSem]
      exact hold.used
    · rw [hentry]
      exact hold.typed
    · rw [hentry]
      intro _ _ hnone
      cases hnone
    · rw [hentry]
      intro u hu
      cases hu
      exact Or.inr (setPhase_self _)
    · rw [hentry]
      intro u hu
      by_cases hut : u = t
      · rw [hut]
        exact ⟨rfl, eq_false_of_ne_true hvalid⟩
      · rw [setPhase_of_ne hut] at hu
        exact absurd hu (hold.quiet hsem u).left
    · intro u hu
      by_cases hut : u = t
      · rw [hut, setPhase_self] at hu
        cases hu
      · rw [setPhase_of_ne hut] at hu
        exact absurd hu (hold.quiet hsem u).right
  · intro j hj
    apply keeps_setPhase (keeps_setInode hj)
    · have hne : Phase.loading i ≠ Phase.loading j := by
        intro e
        cases e
        exact hj rfl
      constructor
      · exact fun e => absurd e hne
      · exact fun e => absurd e (not_busy hidle j).left
    · constructor
      · intro e
        cases e
      · exact fun e => absurd e (not_busy hidle j).right

theorem lock_sound (h : Sound s) (hidle : s.phase t = Phase.idle) (hmem : (t, i) ∈ s.refs)
    (hrun : inodeLock t i s = some s') : Sound s' := by
  rcases inodeLock_cases hrun with ⟨hsem, ⟨hvalid, rfl⟩ | ⟨hvalid, rfl⟩⟩
  · exact h.take hmem hsem hvalid
  · exact h.take_load hidle hmem hsem hvalid

theorem keeps_leave {s1 : State T D} {j : Nat} (hkeep : Keeps s s1 j)
    (hbefore : s1.phase t ≠ Phase.loading j ∧ s1.phase t ≠ Phase.freeing j) :
    Keeps s (s1.setPhase t Phase.idle) j := by
  apply keeps_setPhase hkeep
  · constructor
    · intro e
      cases e
    · exact fun e => absurd e hbefore.left
  · constructor
    · intro e
      cases e
    · exact fun e => absurd e hbefore.right

/-- Only the task that has the semaphore of a place is inside a call there. -/
theorem PlaceSound.only_holder (h : PlaceSound s i) (hsem : (s.icache i).sem = some t) {u : T}
    (hut : u ≠ t) : s.phase u ≠ Phase.loading i ∧ s.phase u ≠ Phase.freeing i := by
  constructor
  · intro hu
    have hother := (h.loading u hu).left
    rw [hsem] at hother
    cases hother
    exact hut rfl
  · intro hu
    have hother := (h.freeing u hu).left
    rw [hsem] at hother
    cases hother
    exact hut rfl

theorem load_sound (h : Sound s) (hrun : inodeLoad t i s = some s') : Sound s' := by
  rcases inodeLoad_cases hrun with ⟨hload, hused, rfl⟩
  have hold := h.place i
  rcases hold.loading t hload with ⟨hsem, -⟩
  have hpos := h.ref_pos (hold.holder t hsem)
  let ip := { s.icache i with diskInode := s.home i, valid := true }
  have hentry : ((s.setInode i ip).setPhase t Phase.idle).icache i = ip := setInode_self _
  have hhome : ((s.setInode i ip).setPhase t Phase.idle).home i = s.home i :=
    home_setInode rfl rfl
  apply h.at_place hentry rfl rfl (fun hp => hp) _ _ h.clear
  · constructor
    · rw [hentry]
      exact hold.inRange
    · rw [hentry]
      exact hold.counted
    · rw [hentry]
      exact hold.holder
    · rw [hentry, hhome]
      exact hold.used
    · rw [hentry]
      exact fun _ _ => hused
    · rw [hentry, hhome]
      exact fun _ _ _ => rfl
    · rw [hentry]
      exact fun _ _ => Or.inl rfl
    · intro u hu
      by_cases hut : u = t
      · rw [hut, setPhase_self] at hu
        cases hu
      · rw [setPhase_of_ne hut] at hu
        exact absurd hu (hold.only_holder hsem hut).left
    · intro u hu
      by_cases hut : u = t
      · rw [hut, setPhase_self] at hu
        cases hu
      · rw [setPhase_of_ne hut] at hu
        exact absurd hu (hold.only_holder hsem hut).right
  · intro j hj
    apply keeps_leave (keeps_setInode hj)
    rw [show (s.setInode i _).phase t = s.phase t from rfl, hload]
    constructor
    · intro e
      cases e
      exact hj rfl
    · intro e
      cases e

/-- A holder that is in no call has an inode that was read. -/
theorem PlaceSound.valid_of_idle (h : PlaceSound s i) (hsem : (s.icache i).sem = some t)
    (hidle : s.phase t = Phase.idle) : (s.icache i).valid = true := by
  rcases h.ready t hsem with hvalid | hload
  · exact hvalid
  · exact absurd hload (not_busy hidle i).left

/-- Nobody is inside a call at a place whose semaphore a task outside of calls has. -/
theorem PlaceSound.quiet_of_idle (h : PlaceSound s i) (hsem : (s.icache i).sem = some t)
    (hidle : s.phase t = Phase.idle) (u : T) :
    s.phase u ≠ Phase.loading i ∧ s.phase u ≠ Phase.freeing i := by
  by_cases hut : u = t
  · rw [hut]
    exact not_busy hidle i
  · exact h.only_holder hsem hut

theorem edit_sound {d : Dinode} (h : Sound s) (hidle : s.phase t = Phase.idle)
    (htype : d.type = (s.icache i).diskInode.type) (hrun : editInode t i d s = some s') :
    Sound s' := by
  rcases editInode_cases hrun with ⟨hsem, rfl⟩
  have hold := h.place i
  apply h.at_place (setDinode_self d) rfl rfl (fun hp => hp) _ (fun j hj => keeps_setInode hj)
    h.clear
  constructor
  · rw [setDinode_self]
    exact hold.inRange
  · rw [setDinode_self]
    exact hold.counted
  · rw [setDinode_self]
    exact hold.holder
  · rw [setDinode_self, home_setDinode]
    exact hold.used
  · rw [setDinode_self]
    intro hpos hvalid
    unfold InUse
    rw [htype]
    exact hold.typed hpos hvalid
  · rw [setDinode_self]
    intro _ _ hnone
    dsimp only at hnone
    rw [hsem] at hnone
    cases hnone
  · rw [setDinode_self]
    exact hold.ready
  · exact fun u hu => absurd hu (hold.quiet_of_idle hsem hidle u).left
  · exact fun u hu => absurd hu (hold.quiet_of_idle hsem hidle u).right

/-- A write to the home of a place leaves other places. -/
theorem keeps_setHome (h : Sound s) {j : Nat} {d : Dinode} (hpos : 0 < (s.icache i).ref)
    (hj : j ≠ i) : Keeps s (s.setHome i d) j where
  entry := rfl
  home hposj := home_setHome_of_ne d (h.apart hj hpos hposj)
  held := rfl
  mem _ hu := hu
  loading _ := Iff.rfl
  freeing _ := Iff.rfl

/-- A write to the home of a place that keeps the inode in use. -/
theorem clear_setHome (h : Sound s) {d : Dinode} (hd : InUse d ∨ d.nlink = 0) (disk : D)
    (inum : UInt32) (hfree : Not (InUse ((s.setHome i d).stored disk inum))) :
    ((s.setHome i d).stored disk inum).nlink = 0 := by
  unfold State.setHome State.setStored at hfree ⊢
  dsimp only at hfree ⊢
  split at hfree
  · rename_i hsame
    rw [if_pos hsame]
    rcases hd with hused | hzero
    · exact absurd hused hfree
    · exact hzero
  · rename_i hne
    rw [if_neg hne]
    exact h.clear disk inum hfree

theorem update_sound (h : Sound s) (hidle : s.phase t = Phase.idle)
    (hrun : inodeUpdate t i s = some s') : Sound s' := by
  rcases inodeUpdate_cases hrun with ⟨hsem, rfl⟩
  have hold := h.place i
  have hpos := h.ref_pos (hold.holder t hsem)
  have hused := hold.typed hpos (hold.valid_of_idle hsem hidle)
  have hentry : (s.setHome i (s.icache i).diskInode).icache i = s.icache i := rfl
  apply h.at_place hentry rfl rfl (fun hp => hp) _ (fun j hj => keeps_setHome h hpos hj)
    (clear_setHome h (Or.inl hused))
  constructor
  · exact hold.inRange
  · exact hold.counted
  · exact hold.holder
  · rw [home_setHome_self]
    exact fun _ => hused
  · exact hold.typed
  · rw [home_setHome_self]
    exact fun _ _ _ => rfl
  · exact hold.ready
  · exact hold.loading
  · exact fun u hu => absurd hu (hold.quiet_of_idle hsem hidle u).right

theorem unlock_sound (h : Sound s) (hidle : s.phase t = Phase.idle)
    (hsync : (s.home i).nlink = (s.icache i).diskInode.nlink)
    (hrun : inodeUnlock t i s = some s') : Sound s' := by
  rcases inodeUnlock_cases hrun with ⟨hsem, rfl⟩
  have hold := h.place i
  have hentry := setSem_self (s := s) (i := i) (none : Option T)
  apply h.at_place hentry rfl rfl (fun hp => hp) _ (fun j hj => keeps_setInode hj) h.clear
  constructor
  · rw [setSem_self]
    exact hold.inRange
  · rw [setSem_self]
    exact hold.counted
  · rw [setSem_self]
    intro u hu
    cases hu
  · rw [setSem_self, home_setSem]
    exact hold.used
  · rw [setSem_self]
    exact hold.typed
  · rw [setSem_self, home_setSem]
    exact fun _ _ _ => hsync
  · rw [setSem_self]
    intro u hu
    cases hu
  · exact fun u hu => absurd hu (hold.quiet_of_idle hsem hidle u).left
  · exact fun u hu => absurd hu (hold.quiet_of_idle hsem hidle u).right

theorem Sound.dropRef (h : Sound s) (hmem : (t, i) ∈ s.refs) (hsem : (s.icache i).sem = none) :
    Sound (s.dropRef i t) := by
  have hold := h.place i
  have hpos := h.ref_pos hmem
  have hentry : (s.dropRef i t).icache i = { s.icache i with ref := (s.icache i).ref - 1 } :=
    setInode_self _
  have hhome : (s.dropRef i t).home i = s.home i := home_setInode rfl rfl
  apply h.at_place hentry rfl rfl (fun _ => hpos) _ _ h.clear
  · constructor
    · exact fun _ => hold.inRange hpos
    · rw [hentry]
      have hcount := held_dropRef hmem
      have hcounted := hold.counted
      show (s.icache i).ref - 1 = (s.dropRef i t).held i
      lia
    · rw [hentry]
      intro u hu
      dsimp only at hu
      rw [hsem] at hu
      cases hu
    · rw [hhome]
      exact fun _ => hold.used hpos
    · rw [hentry]
      exact fun _ => hold.typed hpos
    · rw [hentry, hhome]
      exact fun _ => hold.synced hpos
    · rw [hentry]
      exact hold.ready
    · exact fun u hu => absurd hu (hold.quiet hsem u).left
    · exact fun u hu => absurd hu (hold.quiet hsem u).right
  · intro j hj
    constructor
    · exact setInode_of_ne _ hj
    · exact fun _ => home_dropRef_of_ne hj
    · exact held_dropRef_of_ne hmem hj
    · exact fun u hu => mem_dropRef_of_ne hj hu
    · exact fun _ => Iff.rfl
    · exact fun _ => Iff.rfl

theorem Sound.take_free (h : Sound s) (hidle : s.phase t = Phase.idle) (hmem : (t, i) ∈ s.refs)
    (hsem : (s.icache i).sem = none) (hvalid : (s.icache i).valid = true)
    (hlinks : (s.icache i).diskInode.nlink = 0) (hlast : (s.icache i).ref = 1) :
    Sound ((s.setSem i (some t)).setPhase t (Phase.freeing i)) := by
  have hold := h.place i
  have hpos := h.ref_pos hmem
  have hentry : ((s.setSem i (some t)).setPhase t (Phase.freeing i)).icache i =
      { s.icache i with sem := some t } := setSem_self _
  have hhome : ((s.setSem i (some t)).setPhase t (Phase.freeing i)).home i = s.home i :=
    home_setSem _
  have hzero : (s.home i).nlink = 0 := (hold.synced hpos hvalid hsem).trans hlinks
  apply h.at_place hentry rfl rfl (fun hp => hp) _ _ h.clear
  · constructor
    · rw [hentry]
      exact hold.inRange
    · rw [hentry]
      exact hold.counted
    · rw [hentry]
      intro u hu
      cases hu
      exact hmem
    · rw [hentry, hhome]
      exact hold.used
    · rw [hentry]
      exact hold.typed
    · rw [hentry]
      intro _ _ hnone
      cases hnone
    · rw [hentry]
      exact fun _ _ => Or.inl hvalid
    · intro u hu
      by_cases hut : u = t
      · rw [hut, setPhase_self] at hu
        cases hu
      · rw [setPhase_of_ne hut] at hu
        exact absurd hu (hold.quiet hsem u).left
    · rw [hentry, hhome]
      intro u hu
      by_cases hut : u = t
      · rw [hut]
        exact ⟨rfl, hvalid, hlinks, hzero, hlast⟩
      · rw [setPhase_of_ne hut] at hu
        exact absurd hu (hold.quiet hsem u).right
  · intro j hj
    apply keeps_setPhase (keeps_setInode hj)
    · constructor
      · intro e
        cases e
      · exact fun e => absurd e (not_busy hidle j).left
    · have hne : Phase.freeing i ≠ Phase.freeing j := by
        intro e
        cases e
        exact hj rfl
      constructor
      · exact fun e => absurd e hne
      · exact fun e => absurd e (not_busy hidle j).right

theorem put_sound (h : Sound s) (hidle : s.phase t = Phase.idle) (hmem : (t, i) ∈ s.refs)
    (hrun : inodePut t i s = some s') : Sound s' := by
  rcases inodePut_cases hrun with ⟨hsem, ⟨hvalid, hlinks, hlast, rfl⟩ | rfl⟩
  · exact h.take_free hidle hmem hsem hvalid hlinks hlast
  · exact h.dropRef hmem hsem

theorem truncate_sound {d : Dinode} (h : Sound s)
    (htype : d.type = (s.icache i).diskInode.type)
    (hlinks : d.nlink = (s.icache i).diskInode.nlink)
    (hrun : truncateInode t i d s = some s') : Sound s' := by
  rcases truncateInode_cases hrun with ⟨hfree, rfl⟩
  have hold := h.place i
  have hstate := hold.freeing t hfree
  have hpos := h.ref_pos (hold.holder t hstate.left)
  have hused : InUse d := by
    unfold InUse
    rw [htype]
    exact hold.typed hpos hstate.right.left
  have hentry : ((s.setDinode i d).setHome i d).icache i =
      { s.icache i with diskInode := d } := setDinode_self _
  have hhome : ((s.setDinode i d).setHome i d).home i = d := home_setHome_self d
  have hplaces : (s.setDinode i d).setHome i d = (s.setHome i d).setDinode i d := by
    unfold State.setHome
    rw [setDinode_self]
    rfl
  apply h.at_place hentry rfl rfl (fun hp => hp)
  · constructor
    · rw [hentry]
      exact hold.inRange
    · rw [hentry]
      exact hold.counted
    · rw [hentry]
      exact hold.holder
    · rw [hhome]
      exact fun _ => hused
    · rw [hentry]
      exact fun _ _ => hused
    · rw [hentry, hhome]
      exact fun _ _ _ => rfl
    · rw [hentry]
      exact hold.ready
    · rw [hentry]
      exact hold.loading
    · rw [hentry, hhome]
      intro u hu
      have hstateU := hold.freeing u hu
      have hzero := hlinks.trans hstateU.right.right.left
      exact ⟨hstateU.left, hstateU.right.left, hzero, hzero, hstateU.right.right.right.right⟩
  · intro j hj
    rw [hplaces]
    exact (keeps_setHome h hpos hj).trans (keeps_setInode hj)
  · rw [hplaces]
    exact clear_setHome h (Or.inl hused)

theorem free_sound (h : Sound s) (hrun : freeInode t i s = some s') : Sound s' := by
  rcases freeInode_cases hrun with ⟨hfree, rfl⟩
  have hold := h.place i
  rcases hold.freeing t hfree with ⟨hsem, hvalid, hlinks, hzero, hlast⟩
  have hmem := hold.holder t hsem
  have hpos := h.ref_pos hmem
  let ip := { s.icache i with diskInode := s.cleared i, valid := false, sem := (none : Option T) }
  let s1 := (s.setHome i (s.cleared i)).setInode i ip
  have hmem1 : (t, i) ∈ s1.refs := hmem
  have hentry : ((s1.dropRef i t).setPhase t Phase.idle).icache i =
      { ip with ref := ip.ref - 1 } := by
    show (s1.dropRef i t).icache i = _
    unfold State.dropRef
    dsimp only
    rw [setInode_self]
    show { s1.icache i with ref := (s1.icache i).ref - 1 } = _
    rw [show s1.icache i = ip from setInode_self _]
  have hgone : ip.ref - 1 = 0 := by
    show (s.icache i).ref - 1 = 0
    rw [hlast]
  have hbusy : forall u, ((s1.dropRef i t).setPhase t Phase.idle).phase u ≠ Phase.loading i ∧
      ((s1.dropRef i t).setPhase t Phase.idle).phase u ≠ Phase.freeing i := by
    intro u
    by_cases hut : u = t
    · rw [hut]
      exact not_busy (setPhase_self _) i
    · rw [setPhase_of_ne hut]
      exact hold.only_holder hsem hut
  apply h.at_place hentry rfl rfl
  · intro hp
    dsimp only at hp
    lia
  · constructor
    · rw [hentry]
      intro hp
      dsimp only at hp
      lia
    · rw [hentry]
      have hcount := held_dropRef hmem1
      have hcounted := hold.counted
      have hheld : s1.held i = s.held i := rfl
      show ip.ref - 1 = (s1.dropRef i t).held i
      lia
    · rw [hentry]
      intro u hu
      cases hu
    · rw [hentry]
      intro hp
      dsimp only at hp
      lia
    · rw [hentry]
      intro hp
      dsimp only at hp
      lia
    · rw [hentry]
      intro hp
      dsimp only at hp
      lia
    · rw [hentry]
      intro u hu
      cases hu
    · exact fun u hu => absurd hu (hbusy u).left
    · exact fun u hu => absurd hu (hbusy u).right
  · intro j hj
    have hkeep : Keeps s s1 j := (keeps_setHome h hpos hj).trans (keeps_setInode hj)
    have hdrop : Keeps s1 (s1.dropRef i t) j := by
      constructor
      · exact setInode_of_ne _ hj
      · exact fun _ => home_dropRef_of_ne hj
      · exact held_dropRef_of_ne hmem1 hj
      · exact fun u hu => mem_dropRef_of_ne hj hu
      · exact fun _ => Iff.rfl
      · exact fun _ => Iff.rfl
    apply keeps_leave (hkeep.trans hdrop)
    rw [show (s1.dropRef i t).phase t = s.phase t from rfl, hfree]
    constructor
    · intro e
      cases e
    · intro e
      cases e
      exact hj rfl
  · exact clear_setHome h (Or.inr hlinks)

/-!
# Runs
-/

theorem step_sound {a : Action T D} (h : Sound s) (hobeys : Obeys s a)
    (hstep : step s a = some s') : Sound s' := by
  cases a with
  | iget t disk inum =>
      rcases hobeys with ⟨-, hlinks⟩
      have hused : InUse (s.stored disk inum) := by
        intro hfree
        exact hlinks (h.clear disk inum (fun hin => hin hfree))
      apply iget_sound h hused _ hstep
      intro j u hj hfree
      have hzero := ((h.place j).freeing u hfree).right.right.right.left
      unfold State.home at hzero
      rw [hj.right.left, hj.right.right] at hzero
      exact hlinks hzero
  | alloc t disk inum typ => exact alloc_sound h hobeys.right hstep
  | dup t i owner =>
      cases hstep
      exact h.addRef (h.ref_pos hobeys.right) (h.not_freeing_of_ref hobeys.left hobeys.right)
  | lock t i => exact lock_sound h hobeys.left hobeys.right hstep
  | load t i => exact load_sound h hstep
  | edit t i d => exact edit_sound h hobeys.left hobeys.right hstep
  | update t i => exact update_sound h hobeys hstep
  | unlock t i => exact unlock_sound h hobeys.left hobeys.right hstep
  | put t i => exact put_sound h hobeys.left hobeys.right hstep
  | truncate t i d => exact truncate_sound h hobeys.left hobeys.right hstep
  | free t i => exact free_sound h hstep

theorem inodesInit_sound (stored : D -> UInt32 -> Dinode) (disk : D)
    (hclear : forall e inum, Not (InUse (stored e inum)) -> (stored e inum).nlink = 0) :
    Sound (inodesInit stored disk : State T D) where
  place i := by
    constructor
    · intro hpos
      cases hpos
    · rfl
    · intro u hu
      cases hu
    · intro hpos
      cases hpos
    · intro hpos
      cases hpos
    · intro hpos
      cases hpos
    · intro u hu
      cases hu
    · intro u hu
      cases hu
    · intro u hu
      cases hu
  unique i j e inum hi := by
    rcases hi with ⟨hpos, -⟩
    cases hpos
  clear := hclear

/-!
# What a step does to places and to inodes
-/

theorem setInode_same_inode (s : State T D) (k : Nat) (ip : CachedInode T D)
    (hdisk : ip.disk = (s.icache k).disk) (hinum : ip.inum = (s.icache k).inum) (j : Nat) :
    ((s.setInode k ip).icache j).disk = (s.icache j).disk ∧
      ((s.setInode k ip).icache j).inum = (s.icache j).inum := by
  by_cases hj : j = k
  · rw [hj, setInode_self]
    exact ⟨hdisk, hinum⟩
  · rw [setInode_of_ne _ hj]
    exact ⟨rfl, rfl⟩

theorem iget_same_inode {disk : D} {inum : UInt32} (hrun : iget t disk inum s = some s') (j : Nat)
    (hpos : 0 < (s.icache j).ref) :
    (s'.icache j).disk = (s.icache j).disk ∧ (s'.icache j).inum = (s.icache j).inum := by
  rcases iget_cases hrun with ⟨k, -, rfl⟩ | ⟨-, k, hplace, rfl⟩
  · exact setInode_same_inode s k { s.icache k with ref := (s.icache k).ref + 1 } rfl rfl j
  · have hempty := (findEmpty_some hplace).right
    have hj : j ≠ k := by
      intro e
      rw [<- e] at hempty
      lia
    unfold State.occupy
    dsimp only
    rw [setInode_of_ne _ hj]
    exact ⟨rfl, rfl⟩

theorem step_same_inode {a : Action T D} (hstep : step s a = some s') (j : Nat)
    (hpos : 0 < (s.icache j).ref) :
    (s'.icache j).disk = (s.icache j).disk ∧ (s'.icache j).inum = (s.icache j).inum := by
  cases a with
  | iget t disk inum => exact iget_same_inode hstep j hpos
  | alloc t disk inum typ => exact iget_same_inode (inodeAlloc_cases hstep).right j hpos
  | dup t i owner =>
      cases hstep
      exact setInode_same_inode s i { s.icache i with ref := (s.icache i).ref + 1 } rfl rfl j
  | lock t i =>
      rcases inodeLock_cases hstep with ⟨-, ⟨-, rfl⟩ | ⟨-, rfl⟩⟩
      · exact setInode_same_inode s i { s.icache i with sem := some t } rfl rfl j
      · exact setInode_same_inode s i { s.icache i with sem := some t } rfl rfl j
  | load t i =>
      rcases inodeLoad_cases hstep with ⟨-, -, rfl⟩
      exact setInode_same_inode s i { s.icache i with diskInode := s.home i, valid := true } rfl
        rfl j
  | edit t i d =>
      rcases editInode_cases hstep with ⟨-, rfl⟩
      exact setInode_same_inode s i { s.icache i with diskInode := d } rfl rfl j
  | update t i =>
      rcases inodeUpdate_cases hstep with ⟨-, rfl⟩
      exact ⟨rfl, rfl⟩
  | unlock t i =>
      rcases inodeUnlock_cases hstep with ⟨-, rfl⟩
      exact setInode_same_inode s i { s.icache i with sem := (none : Option T) } rfl rfl j
  | put t i =>
      rcases inodePut_cases hstep with ⟨-, ⟨-, -, -, rfl⟩ | rfl⟩
      · exact setInode_same_inode s i { s.icache i with sem := some t } rfl rfl j
      · exact setInode_same_inode s i { s.icache i with ref := (s.icache i).ref - 1 } rfl rfl j
  | truncate t i d =>
      rcases truncateInode_cases hstep with ⟨-, rfl⟩
      exact setInode_same_inode s i { s.icache i with diskInode := d } rfl rfl j
  | free t i =>
      rcases freeInode_cases hstep with ⟨-, rfl⟩
      let ip := { s.icache i with
        diskInode := s.cleared i
        valid := false
        sem := (none : Option T) }
      let s1 := (s.setHome i (s.cleared i)).setInode i ip
      have hset : (s1.icache j).disk = (s.icache j).disk ∧ (s1.icache j).inum = (s.icache j).inum :=
        setInode_same_inode (s.setHome i (s.cleared i)) i ip rfl rfl j
      have hdrop : ((s1.dropRef i t).icache j).disk = (s1.icache j).disk ∧
          ((s1.dropRef i t).icache j).inum = (s1.icache j).inum :=
        setInode_same_inode s1 i { s1.icache i with ref := (s1.icache i).ref - 1 } rfl rfl j
      exact ⟨hdrop.left.trans hset.left, hdrop.right.trans hset.right⟩

/-- The inode `inum` of `disk` is freed by the task that has the last reference to it. -/
structure LastPut (s : State T D) (a : Action T D) (disk : D) (inum : UInt32) : Prop where
  links : (s.stored disk inum).nlink = 0
  last : exists t i, a = Action.free t i ∧ Has s i disk inum ∧ (s.icache i).ref = 1 ∧
    (s.icache i).diskInode.nlink = 0 ∧ forall u, (u, i) ∈ s.refs -> u = t

theorem iget_stored {disk : D} {inum : UInt32} (hrun : iget t disk inum s = some s') :
    s'.stored = s.stored := by
  rcases iget_cases hrun with ⟨k, -, rfl⟩ | ⟨-, k, -, rfl⟩
  · rfl
  · rfl

/-- What a step stores in the inode blocks: nothing, a fresh inode, or the inode of a place. -/
theorem step_stored {a : Action T D} (hstep : step s a = some s') :
    s'.stored = s.stored ∨
      (exists t e n typ, a = Action.alloc t e n typ ∧
        s'.stored = (s.setStored e n (Dinode.fresh typ)).stored) ∨
      (exists t i, a = Action.update t i ∧ (s.icache i).sem = some t ∧
        s'.stored = (s.setHome i (s.icache i).diskInode).stored) ∨
      (exists t i d, a = Action.truncate t i d ∧ s.phase t = Phase.freeing i ∧
        s'.stored = (s.setHome i d).stored) ∨
      exists t i, a = Action.free t i ∧ s.phase t = Phase.freeing i ∧
        s'.stored = (s.setHome i (s.cleared i)).stored := by
  cases a with
  | iget t e n => exact Or.inl (iget_stored hstep)
  | alloc t e n typ =>
      exact Or.inr (Or.inl ⟨t, e, n, typ, rfl, iget_stored (inodeAlloc_cases hstep).right⟩)
  | dup t i owner =>
      cases hstep
      exact Or.inl rfl
  | lock t i =>
      rcases inodeLock_cases hstep with ⟨-, ⟨-, rfl⟩ | ⟨-, rfl⟩⟩
      · exact Or.inl rfl
      · exact Or.inl rfl
  | load t i =>
      rcases inodeLoad_cases hstep with ⟨-, -, rfl⟩
      exact Or.inl rfl
  | edit t i d =>
      rcases editInode_cases hstep with ⟨-, rfl⟩
      exact Or.inl rfl
  | update t i =>
      rcases inodeUpdate_cases hstep with ⟨hsem, rfl⟩
      exact Or.inr (Or.inr (Or.inl ⟨t, i, rfl, hsem, rfl⟩))
  | unlock t i =>
      rcases inodeUnlock_cases hstep with ⟨-, rfl⟩
      exact Or.inl rfl
  | put t i =>
      rcases inodePut_cases hstep with ⟨-, ⟨-, -, -, rfl⟩ | rfl⟩
      · exact Or.inl rfl
      · exact Or.inl rfl
  | truncate t i d =>
      rcases truncateInode_cases hstep with ⟨hfree, rfl⟩
      have hstored : ((s.setDinode i d).setHome i d).stored = (s.setHome i d).stored := by
        unfold State.setHome
        rw [setDinode_self]
        rfl
      exact Or.inr (Or.inr (Or.inr (Or.inl ⟨t, i, d, rfl, hfree, hstored⟩)))
  | free t i =>
      rcases freeInode_cases hstep with ⟨hfree, rfl⟩
      exact Or.inr (Or.inr (Or.inr (Or.inr ⟨t, i, rfl, hfree, rfl⟩)))

theorem inUse_setStored {e disk : D} {n inum : UInt32} {d : Dinode} (hd : InUse d)
    (hused : InUse (s.stored disk inum)) : InUse ((s.setStored e n d).stored disk inum) := by
  unfold State.setStored
  dsimp only
  split
  · exact hd
  · exact hused

theorem step_frees {a : Action T D} (h : Sound s) (hobeys : Obeys s a)
    (hstep : step s a = some s') (disk : D) (inum : UInt32) (hused : InUse (s.stored disk inum))
    (hfreed : Not (InUse (s'.stored disk inum))) : LastPut s a disk inum := by
  rcases step_stored hstep with hsame | ⟨t, e, n, typ, rfl, hstored⟩ | ⟨t, i, rfl, hsem, hstored⟩ |
    ⟨t, i, d, rfl, hfree, hstored⟩ | ⟨t, i, rfl, hfree, hstored⟩
  · rw [hsame] at hfreed
    exact absurd hused hfreed
  · rw [hstored] at hfreed
    exact absurd (inUse_setStored (fresh_inUse hobeys.right) hused) hfreed
  · have hold := h.place i
    have hpos := h.ref_pos (hold.holder t hsem)
    have hd := hold.typed hpos (hold.valid_of_idle hsem hobeys)
    rw [hstored] at hfreed
    exact absurd (inUse_setStored hd hused) hfreed
  · have hold := h.place i
    have hstate := hold.freeing t hfree
    have hpos := h.ref_pos (hold.holder t hstate.left)
    have hd : InUse d := by
      unfold InUse
      rw [hobeys.left]
      exact hold.typed hpos hstate.right.left
    rw [hstored] at hfreed
    exact absurd (inUse_setStored hd hused) hfreed
  · have hold := h.place i
    rcases hold.freeing t hfree with ⟨hsem, -, hlinks, hzero, hlast⟩
    have hpos := h.ref_pos (hold.holder t hsem)
    by_cases hkey : disk = (s.icache i).disk ∧ inum = (s.icache i).inum
    · rcases hkey with ⟨hdisk, hinum⟩
      rw [hdisk, hinum]
      constructor
      · exact hzero
      · exact ⟨t, i, rfl, ⟨hpos, rfl, rfl⟩, hlast, hlinks, fun u hu => h.only_ref hfree hu⟩
    · rw [hstored] at hfreed
      apply absurd _ hfreed
      rw [show (s.setHome i (s.cleared i)).stored disk inum = s.stored disk inum from if_neg hkey]
      exact hused

/--
Every inode has at most one place, which keeps it while it has references, the count of a
place is the number of references that are out, and an inode is freed only without links
by the holder of its last reference.
-/
theorem cache_identity (stored : D -> UInt32 -> Dinode) (disk : D)
    (hclear : forall e inum, Not (InUse (stored e inum)) -> (stored e inum).nlink = 0)
    (s : State T D) (h : Reaches step Obeys (inodesInit stored disk) s) :
    (forall i j e inum, Has s i e inum -> Has s j e inum -> i = j) ∧
      (forall i, (s.icache i).ref = s.held i) ∧
      forall a s', Obeys s a -> step s a = some s' ->
        (forall i, 0 < (s.icache i).ref ->
          (s'.icache i).disk = (s.icache i).disk ∧ (s'.icache i).inum = (s.icache i).inum) ∧
        forall e inum, InUse (s.stored e inum) -> Not (InUse (s'.stored e inum)) ->
          LastPut s a e inum := by
  have hsound : Sound s :=
    h.invariant (inodesInit_sound stored disk hclear)
      (fun r r' a hr hobeys hstep => step_sound hr hobeys hstep)
  refine ⟨hsound.unique, fun i => (hsound.place i).counted, ?_⟩
  intro a s' hobeys hstep
  exact ⟨fun i hpos => step_same_inode hstep i hpos,
    fun e inum hused hfreed => step_frees hsound hobeys hstep e inum hused hfreed⟩

def obeysTest (s : State Nat Unit) : Action Nat Unit -> Bool
  | Action.iget t disk inum =>
      decide (s.phase t = Phase.idle ∧ (s.stored disk inum).nlink ≠ 0)
  | Action.alloc t _ _ typ => decide (s.phase t = Phase.idle ∧ typ ≠ InodeType.none)
  | Action.dup t i _ => decide (s.phase t = Phase.idle ∧ (t, i) ∈ s.refs)
  | Action.lock t i => decide (s.phase t = Phase.idle ∧ (t, i) ∈ s.refs)
  | Action.load _ _ => true
  | Action.edit t i d => decide (s.phase t = Phase.idle ∧ d.type = (s.icache i).diskInode.type)
  | Action.update t _ => decide (s.phase t = Phase.idle)
  | Action.unlock t i =>
      decide (s.phase t = Phase.idle ∧ (s.home i).nlink = (s.icache i).diskInode.nlink)
  | Action.put t i => decide (s.phase t = Phase.idle ∧ (t, i) ∈ s.refs)
  | Action.truncate _ i d =>
      decide (d.type = (s.icache i).diskInode.type ∧ d.nlink = (s.icache i).diskInode.nlink)
  | Action.free _ _ => true

theorem obeys_of_test (s : State Nat Unit) (a : Action Nat Unit) (h : obeysTest s a = true) :
    Obeys s a := by
  cases a with
  | load t i => trivial
  | free t i => trivial
  | _ =>
      have hobeys := of_decide_eq_true h
      exact hobeys

instance (d : Dinode) : Decidable (InUse d) :=
  inferInstanceAs (Decidable (d.type ≠ InodeType.none.code))

def emptyDisk : Unit -> UInt32 -> Dinode := fun _ _ => Dinode.fresh InodeType.none

def linkedFile (nlink : UInt32) : Dinode := { Dinode.fresh InodeType.file with nlink := nlink }

/--
Task 7 allocates an inode and gives it a link, and task 8 takes the link away again.  Both put
their references, and task 8 is about to free the inode.
-/
def sharedInode : List (Action Nat Unit) :=
  [Action.alloc 7 () 1 InodeType.file, Action.lock 7 0, Action.load 7 0,
    Action.edit 7 0 (linkedFile 1), Action.update 7 0, Action.unlock 7 0, Action.iget 8 () 1,
    Action.lock 8 0, Action.edit 8 0 (linkedFile 0), Action.update 8 0, Action.unlock 8 0,
    Action.put 7 0, Action.put 8 0, Action.truncate 8 0 (linkedFile 0)]

theorem cache_identity_sharedInode :
    exists s, runFrom step (inodesInit emptyDisk ()) sharedInode = some s ∧
      (forall i j e inum, Has s i e inum -> Has s j e inum -> i = j) ∧
      (forall i, (s.icache i).ref = s.held i) ∧
      exists s', step s (Action.free 8 0) = some s' ∧ LastPut s (Action.free 8 0) () 1 := by
  have hcheck : runCheck step obeysTest (inodesInit emptyDisk ()) sharedInode = true := by decide
  have hends : ((runFrom step (inodesInit emptyDisk ()) sharedInode).map (fun s =>
      (decide (InUse (s.stored () 1)),
        (step s (Action.free 8 0)).map (fun s' => decide (InUse (s'.stored () 1)))))) =
      some (true, some false) := by
    decide
  rcases Option.map_eq_some_iff.mp hends with ⟨s, hrun, hfields⟩
  rcases Prod.mk.inj hfields with ⟨hused, hnext⟩
  rcases Option.map_eq_some_iff.mp hnext with ⟨s', hstep, hfreed⟩
  have hreach := runFrom_reaches (runMeets_of_runCheck obeys_of_test hcheck) hrun
  rcases cache_identity emptyDisk () (fun _ _ _ => rfl) s hreach with ⟨hunique, hcounted, hnext⟩
  have hfree := (hnext (Action.free 8 0) s' trivial hstep).right () 1
    (of_decide_eq_true hused) (of_decide_eq_false hfreed)
  exact ⟨s, hrun, hunique, hcounted, s', hstep, hfree⟩

end Steps

end Invariant

end Icache
end Fs
end NicoOS
