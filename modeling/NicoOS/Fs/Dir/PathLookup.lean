import NicoOS.Fs.Dir.Names
import NicoOS.Fs.Syscall.Paths

/-!
# Path lookup on the bytes of the image

`path_lookup0` of `fs/pathname.c` over the inode cache and the records of the directories.  Where
nobody else holds an inode, it finds what the records on the disk name, and lets go of the
directories on the way.
-/

namespace NicoOS
namespace Fs
namespace Dir

open Lib
open Inode (State CachedInode InodeType Dinode dinodeAt contents)
open Syscall (Name slash skipSlashes pathSkipelem components)

def inodeUnlockput (i : Nat) (s : State) : Except Stop State := do
  let s <- Inode.inodeUnlock i s
  Inode.inodePut i s

/-- The loop of `path_lookup0`; every element shortens the path. -/
def pathLookupFrom (nameiparent : Bool) : Nat -> Nat -> Name -> Memory -> State ->
    Except Stop (Option Nat × Memory × State)
  | 0, _, _, name, s => Except.ok (none, name, s)
  | fuel + 1, parent, path, name, s =>
      match pathSkipelem path with
      | none =>
          if nameiparent then do
            let s <- Inode.inodePut parent s
            Except.ok (none, name, s)
          else
            Except.ok (some parent, name, s)
      | some (elem, path) => do
          let name := strcpy name 0 elem
          let s <- Inode.inodeLock parent s
          if (s.icache parent).diskInode.type ≠ InodeType.directory.code then do
            let s <- inodeUnlockput parent s
            Except.ok (none, name, s)
          else
            let path := skipSlashes path
            if path = [] ∧ nameiparent then do
              let s <- Inode.inodeUnlock parent s
              Except.ok (some parent, name, s)
            else do
              let (next, s) <- dirLookup parent name s
              match next with
              | none => do
                  let s <- inodeUnlockput parent s
                  Except.ok (none, name, s)
              | some (next, _) => do
                  let s <- inodeUnlockput parent s
                  pathLookupFrom nameiparent fuel next path name s

/-- The start of `path_lookup0`, where `cwd` is the place of the task's directory. -/
def pathStart (cwd : Nat) (path : Name) (s : State) : Except Stop (Nat × Name × State) :=
  match path with
  | [] => Except.ok (cwd, [], Inode.inodeDup cwd s)
  | c :: rest =>
      if c = slash then do
        let (i, s) <- Inode.iget (UInt32.ofNat rootInum) s
        Except.ok (i, rest, s)
      else
        Except.ok (cwd, c :: rest, Inode.inodeDup cwd s)

/-- `path_lookup0`, with what its buffer for the names holds. -/
def pathLookup0 (cwd : Nat) (path : Name) (nameiparent : Bool) (name : Memory) (s : State) :
    Except Stop (Option Nat × Memory × State) := do
  let (parent, path, s) <- pathStart cwd path s
  pathLookupFrom nameiparent (path.length + 1) parent path name s

/-- `path_lookup`; `junk` is what the buffer on the stack held. -/
def pathLookup (cwd : Nat) (path : Name) (junk : Memory) (s : State) :
    Except Stop (Option Nat × State) := do
  let (ip, _, s) <- pathLookup0 cwd path false junk s
  Except.ok (ip, s)

/-!
# What the records name
-/

/-- The inode that the components lead to, from the inode `inum` on. -/
def resolve (v : Volume) : UInt32 -> List Name -> Option UInt32
  | inum, [] => some inum
  | inum, name :: rest =>
      if (dinodeAt v inum).type = InodeType.directory.code then
        match nameMap (contents v (dinodeAt v inum)) name with
        | none => none
        | some next => resolve v next rest
      else
        none

/-- Inodes with links and all their blocks, and directories that name such inodes only. -/
structure Tidy (v : Volume) (good : UInt32 -> Prop) : Prop where
  typed : forall j, good j -> (dinodeAt v j).type ≠ InodeType.none.code
  linked : forall j, good j -> (dinodeAt v j).nlink ≠ 0
  filled : forall j, good j -> Inode.Filled v (dinodeAt v j)
  whole : forall j, good j -> (dinodeAt v j).type = InodeType.directory.code ->
    (dinodeAt v j).size.toNat % direntSize = 0
  closed : forall j name next, good j -> (dinodeAt v j).type = InodeType.directory.code ->
    nameMap (contents v (dinodeAt v j)) name = some next -> good next

/-- A place that nobody uses. -/
def Empty (s : State) (j : Nat) : Prop := (s.icache j).ref = 0 ∧ (s.icache j).locked = false

/-- Nobody uses the cache. -/
def Idle (s : State) : Prop := forall j, Empty s j

/-- One reference to one inode, which is not locked. -/
structure Quiet (s : State) (i : Nat) (inum : UInt32) : Prop where
  number : (s.icache i).inum = inum
  one : (s.icache i).ref = 1
  unlocked : (s.icache i).locked = false
  loaded : (s.icache i).valid = true -> (s.icache i).diskInode = dinodeAt s.vol inum
  others : forall j, j ≠ i -> Empty s j

/-- The inode is locked, and its place holds what is on the disk. -/
structure Grasped (s : State) (i : Nat) (inum : UInt32) : Prop where
  number : (s.icache i).inum = inum
  locked : (s.icache i).locked = true
  valid : (s.icache i).valid = true
  loaded : (s.icache i).diskInode = dinodeAt s.vol inum

section Steps

variable {s t : State} {i : Nat} {inum : UInt32} {good : UInt32 -> Prop}

theorem Empty.beside {j : Nat} (h : Empty s j) (hj : j ≠ i) (ip : CachedInode) :
    Empty (s.setInode i ip) j := by
  unfold Empty
  rw [Inode.setInode_of_ne s ip hj]
  exact h

theorem grasped_setInode {ip : CachedInode} (hnumber : ip.inum = inum) (hlocked : ip.locked = true)
    (hvalid : ip.valid = true) (hloaded : ip.diskInode = dinodeAt s.vol inum) :
    Grasped (s.setInode i ip) i inum := by
  constructor
  · rw [Inode.setInode_self]
    exact hnumber
  · rw [Inode.setInode_self]
    exact hlocked
  · rw [Inode.setInode_self]
    exact hvalid
  · rw [Inode.setInode_self]
    exact hloaded

theorem Quiet.lock (h : Quiet s i inum)
    (htyped : (dinodeAt s.vol inum).type ≠ InodeType.none.code) :
    exists t, Inode.inodeLock i s = Except.ok t ∧ t.vol = s.vol ∧ Grasped t i inum ∧
      (t.icache i).ref = 1 ∧ forall j, j ≠ i -> Empty t j := by
  have href : (s.icache i).ref ≥ 1 := Nat.le_of_eq h.one.symm
  have hself := Inode.setInode_self s i
  unfold Inode.inodeLock
  dsimp only
  rw [if_pos href, h.unlocked, if_neg Bool.false_ne_true, h.number]
  cases hvalid : (s.icache i).valid with
  | true =>
      rw [if_pos rfl]
      refine ⟨_, rfl, rfl, grasped_setInode rfl rfl rfl (h.loaded hvalid), ?_, ?_⟩
      · rw [hself]
        exact h.one
      · exact fun j hj => (h.others j hj).beside hj _
  | false =>
      rw [if_neg Bool.false_ne_true, if_pos htyped]
      refine ⟨_, rfl, rfl, grasped_setInode rfl rfl rfl rfl, ?_, ?_⟩
      · rw [hself]
        exact h.one
      · exact fun j hj => (h.others j hj).beside hj _

/-- `inode_unlockput` of an inode with links drops one reference. -/
theorem Grasped.unlockput (h : Grasped s i inum) (href : 1 ≤ (s.icache i).ref)
    (hlinked : (dinodeAt s.vol inum).nlink ≠ 0) :
    exists t, inodeUnlockput i s = Except.ok t ∧ t.vol = s.vol ∧
      t.icache i = { s.icache i with locked := false, ref := (s.icache i).ref - 1 } ∧
        forall j, j ≠ i -> t.icache j = s.icache j := by
  have hkeep : Not ((s.icache i).valid = true ∧ (s.icache i).diskInode.nlink = 0 ∧
      (s.icache i).ref = 1) := by
    rw [h.loaded]
    exact fun hfrees => hlinked hfrees.right.left
  unfold inodeUnlockput Inode.inodeUnlock
  dsimp only
  rw [if_pos (And.intro h.locked href), ok_bind]
  unfold Inode.inodePut
  dsimp only
  rw [Inode.setInode_self]
  dsimp only
  rw [if_pos href, if_neg Bool.false_ne_true, if_neg hkeep]
  refine ⟨_, rfl, rfl, ?_, ?_⟩
  · rw [Inode.setInode_self]
  · intro j hj
    rw [Inode.setInode_of_ne _ _ hj, Inode.setInode_of_ne _ _ hj]

/-- With one place taken `iget` finds another one, or the same one again. -/
theorem iget_beside (next : UInt32) (hothers : forall j, j ≠ i -> Empty s j) :
    exists j t, Inode.iget next s = Except.ok (j, t) := by
  have hspec := Inode.findInode_spec s.icache next Inode.nicache 0 none
  unfold Inode.iget
  generalize Inode.findInode s.icache next Inode.nicache 0 none = result at hspec ⊢
  cases result with
  | inl j => exact ⟨j, _, rfl⟩
  | inr found =>
      cases found with
      | some j => exact ⟨j, _, rfl⟩
      | none =>
          have hfull := hspec.right.right
          have hsize : Inode.nicache = 50 := rfl
          have hzero := hfull 0 (Nat.le_refl 0) (by lia)
          have hone := hfull 1 (Nat.zero_le 1) (by lia)
          cases Classical.em (i = 0) with
          | inl heq =>
              have hempty := (hothers 1 (by lia)).left
              lia
          | inr hne =>
              have hempty := (hothers 0 (Ne.symm hne)).left
              lia

/-- The step from a directory to an inode that a record names. -/
theorem Grasped.step (h : Grasped s i inum) (hone : (s.icache i).ref = 1)
    (hothers : forall j, j ≠ i -> Empty s j) (hlinked : (dinodeAt s.vol inum).nlink ≠ 0)
    {next : UInt32} {j : Nat} (hget : Inode.iget next s = Except.ok (j, t)) :
    exists u, inodeUnlockput i t = Except.ok u ∧ u.vol = s.vol ∧ Quiet u j next := by
  rcases iget_cases hget with ⟨hpos, hnumber, ht⟩ | ⟨hzero, ht⟩
  · have hij : j = i := by
      by_contra hne
      have hempty := (hothers j hne).left
      lia
    rw [hij] at hnumber ht ⊢
    have hsame : inum = next := h.number.symm.trans hnumber
    have hplace : t.icache i = { s.icache i with ref := (s.icache i).ref + 1 } := by
      rw [ht, Inode.setInode_self]
    have hgrasp : Grasped t i inum := by
      rw [ht]
      exact grasped_setInode h.number h.locked h.valid h.loaded
    have hvol : t.vol = s.vol := by rw [ht, Inode.setInode_vol]
    rcases hgrasp.unlockput (by rw [hplace]; exact Nat.le_add_left _ _)
      (by rw [hvol]; exact hlinked) with ⟨u, hrun, huvol, hu, hrest⟩
    rw [hplace] at hu
    refine ⟨u, hrun, huvol.trans hvol, ?_⟩
    constructor
    · rw [hu]
      exact hnumber
    · rw [hu]
      exact hone
    · rw [hu]
    · rw [hu, huvol, hvol, ← hsame]
      exact fun _ => h.loaded
    · intro k hk
      unfold Empty
      rw [hrest k hk, ht]
      exact (hothers k hk).beside hk _
  · have hne : i ≠ j := by
      intro heq
      rw [← heq, hone] at hzero
      cases hzero
    have hplace : t.icache i = s.icache i := by
      rw [ht, Inode.setInode_of_ne _ _ hne]
    have hvol : t.vol = s.vol := by rw [ht, Inode.setInode_vol]
    have hgrasp : Grasped t i inum := by
      constructor
      · rw [hplace]
        exact h.number
      · rw [hplace]
        exact h.locked
      · rw [hplace]
        exact h.valid
      · rw [hplace, hvol]
        exact h.loaded
    rcases hgrasp.unlockput (by rw [hplace, hone]) (by rw [hvol]; exact hlinked) with
      ⟨u, hrun, huvol, hu, hrest⟩
    have hnew : u.icache j = { s.icache j with inum := next, ref := 1, valid := false } := by
      rw [hrest j hne.symm, ht, Inode.setInode_self]
    refine ⟨u, hrun, huvol.trans hvol, ?_⟩
    constructor
    · rw [hnew]
    · rw [hnew]
    · rw [hnew]
      exact (hothers j hne.symm).right
    · rw [hnew]
      exact fun hvalid => absurd hvalid Bool.false_ne_true
    · intro k hk
      cases Classical.em (k = i) with
      | inl heq =>
          unfold Empty
          rw [heq, hu, hplace, hone]
          exact And.intro rfl rfl
      | inr hki =>
          unfold Empty
          rw [hrest k hki, ht]
          exact (hothers k hki).beside hk _

theorem Grasped.release (h : Grasped s i inum) (hone : (s.icache i).ref = 1)
    (hothers : forall j, j ≠ i -> Empty s j) (hlinked : (dinodeAt s.vol inum).nlink ≠ 0) :
    exists u, inodeUnlockput i s = Except.ok u ∧ u.vol = s.vol ∧ Idle u := by
  rcases h.unlockput (Nat.le_of_eq hone.symm) hlinked with ⟨u, hrun, huvol, hu, hrest⟩
  refine ⟨u, hrun, huvol, ?_⟩
  intro k
  unfold Empty
  cases Classical.em (k = i) with
  | inl heq =>
      rw [heq, hu, hone]
      exact And.intro rfl rfl
  | inr hki =>
      rw [hrest k hki]
      exact hothers k hki

end Steps

/-!
# The lookup
-/

/-- The place that the lookup gives back, with the only reference to the inode. -/
def Answered (t : State) (found : Option Nat) : Option UInt32 -> Prop
  | none => found = none ∧ Idle t
  | some inum => exists j, found = some j ∧ Quiet t j inum

section Lookup

variable {s : State} {i : Nat} {inum : UInt32} {good : UInt32 -> Prop}

theorem Grasped.readable (h : Grasped s i inum) (ht : Tidy s.vol good) (hgood : good inum)
    (hdir : (dinodeAt s.vol inum).type = InodeType.directory.code) : Readable s i where
  locked := h.locked
  directory := by
    rw [h.loaded]
    exact hdir
  whole := by
    rw [h.loaded]
    exact ht.whole inum hgood hdir
  filled := by
    rw [h.loaded]
    exact ht.filled inum hgood

theorem Grasped.bytesOf_eq (h : Grasped s i inum) :
    bytesOf s i = contents s.vol (dinodeAt s.vol inum) := by
  unfold bytesOf
  rw [h.loaded]

/-- `path_lookup` gives the inode that the records on the disk name. -/
theorem pathLookupFrom_resolves (ht : Tidy s.vol good) (h : Quiet s i inum) (hgood : good inum)
    (fuel : Nat) (path : Name) (hfuel : path.length < fuel)
    (hnames : forall c, c ∈ components path -> Fits c) (name : Memory) :
    exists found buf t, pathLookupFrom false fuel i path name s = Except.ok (found, buf, t) ∧
      t.vol = s.vol ∧ Answered t found (resolve s.vol inum (components path)) := by
  induction fuel generalizing s i inum path name with
  | zero => exact absurd hfuel (Nat.not_lt_zero _)
  | succ fuel ih =>
      unfold pathLookupFrom
      cases helem : pathSkipelem path with
      | none =>
          rw [Syscall.pathSkipelem_none helem]
          exact ⟨some i, name, s, rfl, rfl, i, rfl, h⟩
      | some elem =>
          rcases elem with ⟨elem, rest⟩
          have hcomponents := Syscall.pathSkipelem_some helem
          have hshort := Syscall.length_pathSkipelem helem
          rw [hcomponents] at hnames ⊢
          have hfits := hnames elem List.mem_cons_self
          rcases h.lock (ht.typed inum hgood) with ⟨t, hlock, hvol, hgrasp, hone, hothers⟩
          have htidy : Tidy t.vol good := by
            rw [hvol]
            exact ht
          have hlinked := htidy.linked inum hgood
          have htype : (t.icache i).diskInode.type = (dinodeAt s.vol inum).type := by
            rw [hgrasp.loaded, hvol]
          dsimp only
          rw [hlock, ok_bind, resolve, htype]
          cases Classical.em ((dinodeAt s.vol inum).type = InodeType.directory.code) with
          | inr hfile =>
              rcases hgrasp.release hone hothers hlinked with ⟨u, hrun, huvol, hidle⟩
              rw [if_pos hfile, hrun, if_neg hfile]
              exact ⟨none, _, u, rfl, huvol.trans hvol, rfl, hidle⟩
          | inl hdir =>
              have hdir' : (dinodeAt t.vol inum).type = InodeType.directory.code := by
                rw [hvol]
                exact hdir
              have hreadable := hgrasp.readable htidy hgood hdir'
              have hbytes := hgrasp.bytesOf_eq
              rw [if_neg (not_not_intro hdir), if_pos hdir,
                if_neg (fun hc => Bool.false_ne_true hc.right)]
              have hlabel := hfits.label name
              have hname := hfits.nameFits name
              rw [hvol] at hbytes
              cases hfind : SlotMap.find (slotAt (bytesOf t i)) (label (strcpy name 0 elem))
                  (slots (bytesOf t i)) 0 with
              | none =>
                  have hmap : nameMap (bytesOf t i) elem = none := by
                    rw [← hlabel]
                    exact SlotMap.binding_eq_none hfind
                  rcases hgrasp.release hone hothers hlinked with ⟨u, hrun, huvol, hidle⟩
                  rw [dirLookup_none hreadable hname hfind, ok_bind, ← hbytes, hmap]
                  dsimp only
                  rw [hrun]
                  exact ⟨none, _, u, rfl, huvol.trans hvol, rfl, hidle⟩
              | some p =>
                  rcases p with ⟨k, next⟩
                  have hmap : nameMap (bytesOf t i) elem = some next := by
                    rw [← hlabel]
                    exact SlotMap.binding_eq_some hfind
                  rcases iget_beside next hothers with ⟨j, u, hget⟩
                  rcases hgrasp.step hone hothers hlinked hget with ⟨w, hrun, hwvol, hquiet⟩
                  have hwsame : w.vol = s.vol := hwvol.trans hvol
                  have hnext : good next := by
                    apply ht.closed inum elem next hgood hdir
                    rw [← hbytes]
                    exact hmap
                  have hrest := ih (by rw [hwsame]; exact ht) hquiet hnext (skipSlashes rest)
                    (Nat.lt_of_lt_of_le hshort (Nat.le_of_lt_succ hfuel)) (by
                      rw [Syscall.components_skipSlashes]
                      exact fun c hc => hnames c (List.mem_cons_of_mem elem hc))
                    (strcpy name 0 elem)
                  rw [Syscall.components_skipSlashes, hwsame] at hrest
                  rw [dirLookup_some hreadable hname hfind hget, ok_bind, ← hbytes, hmap]
                  dsimp only
                  rw [hrun]
                  exact hrest

/-- Where nobody uses the cache, an absolute path leads from the root to what it names. -/
theorem pathLookup_resolves (hidle : Idle s) (ht : Tidy s.vol good)
    (hroot : good (UInt32.ofNat rootInum)) (cwd : Nat) (path : Name)
    (hnames : forall c, c ∈ components path -> Fits c) (junk : Memory) :
    exists found t, pathLookup cwd (slash :: path) junk s = Except.ok (found, t) ∧
      t.vol = s.vol ∧
        Answered t found (resolve s.vol (UInt32.ofNat rootInum) (components path)) := by
  rcases iget_beside (i := 0) (UInt32.ofNat rootInum) (fun j _ => hidle j) with
    ⟨j, t, hget⟩
  have hquiet : t.vol = s.vol ∧ Quiet t j (UInt32.ofNat rootInum) := by
    rcases iget_cases hget with ⟨hpos, -, -⟩ | ⟨-, ht⟩
    · have hempty := (hidle j).left
      lia
    · have hplace : t.icache j =
          { s.icache j with inum := UInt32.ofNat rootInum, ref := 1, valid := false } := by
        rw [ht, Inode.setInode_self]
      refine And.intro (by rw [ht, Inode.setInode_vol]) ?_
      constructor
      · rw [hplace]
      · rw [hplace]
      · rw [hplace]
        exact (hidle j).right
      · rw [hplace]
        exact fun hvalid => absurd hvalid Bool.false_ne_true
      · intro k hk
        rw [ht]
        exact (hidle k).beside hk _
  rcases hquiet with ⟨hvol, hquiet⟩
  rcases pathLookupFrom_resolves (by rw [hvol]; exact ht) hquiet hroot (path.length + 1) path
    (Nat.lt_succ_self _) hnames junk with ⟨found, buf, u, hrun, huvol, hanswer⟩
  rw [hvol] at huvol hanswer
  have hstart : pathStart cwd (slash :: path) s = Except.ok (j, path, t) := by
    unfold pathStart
    dsimp only
    rw [if_pos rfl, hget]
    rfl
  refine ⟨found, u, ?_, huvol, hanswer⟩
  unfold pathLookup pathLookup0
  rw [hstart, ok_bind]
  dsimp only
  rw [hrun]
  rfl

end Lookup

end Dir
end Fs
end NicoOS
