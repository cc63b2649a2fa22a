import NicoOS.Kernel.Vm.Exhaustion

/-!
# Fork isolation

`vm_copy` of an address space that the kernel has built, and what parent and child do
to each other afterwards.
-/

namespace NicoOS
namespace Kernel
namespace Vm

open Lib

/-!
# User memory
-/

/-- The byte at a user address, through the tables of the directory in frame `d`. -/
def userByte (s : Phys) (d vaddr : Nat) : Option UInt8 :=
  ((layoutOf s d).page (vaddr / 4096)).map (fun f => s.frame f (vaddr % 4096))

/-- A store to a user address, through the tables of the directory in frame `d`. -/
def userStore (d vaddr : Nat) (byte : UInt8) (s : Phys) : Option Phys :=
  ((layoutOf s d).page (vaddr / 4096)).map
    (fun f => s.setFrame f ((s.frame f).setByte (vaddr % 4096) byte))

/--
What happens to an address space: stores of the user, the loader and `vm_copyout`, and
requests for pages.
-/
inductive Act where
  | store (vaddr : Nat) (byte : UInt8)
  | valloc (vaddr pgcnt : Nat)
  | grow (brk : Nat) (bytesCnt : Int)

def answered {α : Type} : Run (α × Phys) -> Option Phys
  | Except.ok a => some a.2
  | Except.error _ => none

def Act.run (d : Nat) : Act -> Phys -> Option Phys
  | Act.store vaddr byte, s => userStore d vaddr byte s
  | Act.valloc vaddr pgcnt, s =>
      answered (vmValloc { pgdir := kernelAddr d, brk := 0 } vaddr pgcnt s)
  | Act.grow brk bytesCnt, s =>
      answered (vmGrowUserheap { pgdir := kernelAddr d, brk := brk } bytesCnt s)

def Act.Valid : Act -> Prop
  | Act.store _ _ => True
  | Act.valloc vaddr pgcnt => vaddr + 4096 * pgcnt ≤ kernelBase
  | Act.grow brk bytesCnt => brk < 0x100000000 ∧ bytesCnt < 0x80000000

/-!
# Built address spaces
-/

/--
The address space with its directory in frame `d` is built by `vm_new` and acts that got
their frames, while others use their own frames and the free list.
-/
inductive Built : Phys -> List Nat -> Nat -> Prop where
  | new {s : Phys} {c : Nat} {rest : List Nat} (pool : Pool s (c :: rest))
      (fresh : s.exhausted = false) : Built (newDir s c) rest c
  | act {s s' : Phys} {free free' : List Nat} {d : Nat} {a : Act} (old : Built s free d)
      (valid : a.Valid) (run : a.run d s = some s') (fresh : s'.exhausted = false)
      (pool : Pool s' free') : Built s' free' d
  | others {s s' : Phys} {free free' : List Nat} {d : Nat} (old : Built s free d)
      (pool : Pool s' free')
      (unused : forall x f, (layoutOf s d).frame x = some f -> Not (f ∈ free'))
      (same : forall x f, (layoutOf s d).frame x = some f -> s'.frame f = s.frame f)
      (kernel : s'.frame kpgdirFrame = s.frame kpgdirFrame)
      (fresh : s'.exhausted = false) : Built s' free' d

/-- What every act keeps. -/
structure Grows (s : Phys) (free : List Nat) (L : Layout) (s' : Phys) (free' : List Nat)
    (L' : Layout) : Prop where
  sound : Sound s' free' L'
  dir : L'.dir = L.dir
  fresh : forall x f, L'.frame x = some f -> L.frame x = some f ∨ f ∈ free
  taken : forall f, f ∈ free' -> f ∈ free
  others : forall f, L.Unused f -> Not (f ∈ free) -> s'.frame f = s.frame f

section Acts

variable {s : Phys} {free : List Nat} {L : Layout}

theorem Extends.grows {s' : Phys} {free' : List Nat} {L' : Layout}
    (h : Extends s free L s' free' L') : Grows s free L s' free' L' :=
  ⟨h.sound, h.dir, h.fresh, h.taken, h.others⟩

theorem Sound.writePage (h : Sound s free L) {v f : Nat} (hv : L.page v = some f)
    (data : Memory) : Grows s free L (s.setFrame f data) free L := by
  have hne : forall g, g ≠ f -> (s.setFrame f data).frame g = s.frame g :=
    fun g hg => setFrame_of_ne data hg
  have hslot : forall x g, L.frame x = some g -> x ≠ Slot.page v -> g ≠ f := by
    intro x g hx hne e
    exact hne (h.own x (Slot.page v) f (e ▸ hx) hv)
  constructor
  · apply h.congr
    · refine h.pool.congr rfl ?_
      exact fun g hg => hne g (fun e => h.used (Slot.page v) f hv (e ▸ hg))
    · exact fun g hg => Or.inl hg
    · have hdir := hslot Slot.dir L.dir rfl (fun e => nomatch e)
      exact fun i => entry_congr (hne L.dir hdir) i
    · intro i t ht j
      have htable := hslot (Slot.table i) t ht (fun e => nomatch e)
      exact entry_congr (hne t htable) j
    · intro i _ _
      exact entry_congr (hne kpgdirFrame (Sound.ne_kpgdir (h.page_inPool hv))) i
  · rfl
  · exact fun x g hx => Or.inl hx
  · exact fun g hg => hg
  · exact fun g hunused _ => hne g (fun e => hunused (Slot.page v) (e ▸ hv))

theorem answered_some {α : Type} {r : Run (α × Phys)} {s' : Phys} (h : answered r = some s') :
    exists a, r = Except.ok (a, s') := by
  cases r with
  | ok a =>
      cases h
      exact ⟨a.1, rfl⟩
  | error e => cases h

theorem userStore_some (h : Sound s free L) {vaddr : Nat} {byte : UInt8} {s' : Phys}
    (hrun : userStore L.dir vaddr byte s = some s') :
    exists f, L.page (vaddr / 4096) = some f ∧
      s' = s.setFrame f ((s.frame f).setByte (vaddr % 4096) byte) := by
  unfold userStore at hrun
  rw [h.layout] at hrun
  cases hp : L.page (vaddr / 4096) with
  | none =>
      rw [hp] at hrun
      cases hrun
  | some f =>
      rw [hp] at hrun
      exact ⟨f, rfl, (Option.some.inj hrun).symm⟩

/-- `vm_valloc` that ends well and has found its frames. -/
theorem vmValloc_grows (h : Sound s free L) {vaddr pgcnt : Nat} {b : Bool} {s' : Phys}
    (hrange : vaddr + 4096 * pgcnt ≤ kernelBase)
    (hrun : vmValloc { pgdir := kernelAddr L.dir, brk := 0 } vaddr pgcnt s =
      Except.ok (b, s')) (hfresh : s'.exhausted = false) :
    exists free' L', Grows s free L s' free' L' := by
  unfold vmValloc at hrun
  split at hrun
  · unfold pgdirValloc at hrun
    by_cases henough : vallocNeed pgcnt (vaddr / 4096) L.hasTable L.hasPage ≤ free.length
    · rcases vallocFrom_enough 0 h hrange henough with
        ⟨s1, free1, L1, hok, hserved, -⟩ | ⟨-, s1, hstop, -⟩
      · rw [hok] at hrun
        cases hrun
        exact ⟨free1, L1, hserved.grown.grows⟩
      · rw [hstop] at hrun
        cases hrun
    · have hdry := vallocFrom_short 0 h hrange (Nat.lt_of_not_le henough)
      have hex := (hdry.of_ok hrun).right.exhausted
      rw [hfresh] at hex
      cases hex
  · cases hrun

/-- `vm_grow_userheap` that ends well and has found its frames. -/
theorem vmGrow_grows (h : Sound s free L) {brk : Nat} {bytesCnt : Int}
    {r : Nat × AddressSpace} {s' : Phys} (hbrk : brk < 0x100000000)
    (hbytes : bytesCnt < 0x80000000)
    (hrun : vmGrowUserheap { pgdir := kernelAddr L.dir, brk := brk } bytesCnt s =
      Except.ok (r, s')) (hfresh : s'.exhausted = false) :
    exists free' L', Grows s free L s' free' L' := by
  by_cases hok : brk ≠ 0 ∧ 0 ≤ bytesCnt ∧ brk + bytesCnt.toNat < userHeapTop
  · rw [grow_accepted hbrk hbytes hok] at hrun
    have htop := userHeapTop_lt hok.right.right
    by_cases henough : growNeed (rounds brk (brk + bytesCnt.toNat)) (brk / 4096) L.hasTable
        L.hasPage ≤ free.length
    · rcases growFrom_enough h htop rfl (rounds_le brk bytesCnt.toNat) henough with
        ⟨s1, free1, L1, hgrow, hserved⟩
      rw [hgrow, ok_bind, if_pos rfl] at hrun
      cases hrun
      exact ⟨free1, L1, hserved.grown.grows⟩
    · have hdry := growFrom_short h htop rfl (rounds_le brk bytesCnt.toNat)
        (Nat.lt_of_not_le henough)
      rcases bind_ok hrun with ⟨a, hgrow, hrest⟩
      have hend := hdry.of_ok hgrow
      rw [if_pos hend.left] at hrest
      cases hrest
      have hex := hend.right.exhausted
      rw [hfresh] at hex
      cases hex
  · have hsame : s' = s := by
      have hinside : brk = 0 ∨ bytesCnt < 0 ∨ wrap (brk + bytesCnt.toNat) < brk ∨
          wrap (brk + bytesCnt.toNat) ≥ userHeapTop := by
        have htopEq : userHeapTop = 2147467264 := rfl
        rw [wrap_eq]
        omega
      unfold vmGrowUserheap at hrun
      dsimp only at hrun
      split at hrun
      · cases hrun
      · split at hrun
        · cases hrun
          rfl
        · rename_i hnull hneg
          rcases hinside with hzero | hneg' | hout
          · exact absurd hzero hnull
          · exact absurd hneg' hneg
          · rw [if_pos hout] at hrun
            cases hrun
            rfl
    rw [hsame]
    exact ⟨free, L, (Extends.refl h).grows⟩

/-- Every act keeps the address space sound and the frames of others as they are. -/
theorem Act.grows (h : Sound s free L) {a : Act} {s' : Phys} (hvalid : a.Valid)
    (hrun : a.run L.dir s = some s') (hfresh : s'.exhausted = false) :
    exists free' L', Grows s free L s' free' L' := by
  cases a with
  | store vaddr byte =>
      rcases userStore_some h hrun with ⟨f, hp, hs⟩
      rw [hs]
      exact ⟨free, L, h.writePage hp _⟩
  | valloc vaddr pgcnt =>
      rcases answered_some hrun with ⟨b, hok⟩
      exact vmValloc_grows h hvalid hok hfresh
  | grow brk bytesCnt =>
      rcases answered_some hrun with ⟨r, hok⟩
      exact vmGrow_grows h hvalid.left hvalid.right hok hfresh

end Acts

theorem Linked.unique {frame : Nat -> Memory} {head : Nat} {free free' : List Nat}
    (h : Linked frame head free) (h' : Linked frame head free') : free = free' := by
  induction free generalizing head free' with
  | nil =>
      cases free' with
      | nil => rfl
      | cons f rest =>
          have hzero : head = 0 := h
          have haddr := h'.left
          rw [hzero] at haddr
          exact absurd haddr.symm (kernelAddr_ne_zero f)
  | cons f rest ih =>
      cases free' with
      | nil =>
          have hzero : head = 0 := h'
          have haddr := h.left
          rw [hzero] at haddr
          exact absurd haddr.symm (kernelAddr_ne_zero f)
      | cons g rest' =>
          have hfg : f = g := by
            have heq := h.left.symm.trans h'.left
            rw [kernelAddr_eq, kernelAddr_eq] at heq
            omega
          cases hfg
          rw [ih h.right h'.right]

theorem Pool.unique {s : Phys} {free free' : List Nat} (h : Pool s free) (h' : Pool s free') :
    free = free' :=
  h.linked.unique h'.linked

/-- `pgdir_new` makes an address space without pages. -/
theorem newDir_sound {s : Phys} {c : Nat} {rest : List Nat} (h : Pool s (c :: rest)) :
    Sound (newDir s c) rest ⟨c, fun _ => none, fun _ => none⟩ := by
  have hc := h.inPool c List.mem_cons_self
  have hnodup := List.nodup_cons.mp h.nodup
  constructor
  · refine h.palloc_cons.right.congr rfl ?_
    intro f hf
    have hfc : f ≠ c := fun e => hnodup.left (e ▸ hf)
    rw [newDir_frame hfc]
    rfl
  · apply layoutOf_eq
    · intro i hi
      rw [newDir_user hi]
      rfl
    · intro i t _ ht
      cases ht
    · exact fun _ _ _ _ _ => rfl
    · exact fun _ _ => rfl
    · exact fun _ _ => rfl
  · intro i hlow hhigh
    rw [newDir_kernel hc hlow hhigh, entry_congr (newDir_frame (Sound.ne_kpgdir hc))]
  · intro x f hx
    cases x with
    | dir =>
        cases hx
        exact hc
    | table i => cases hx
    | page v => cases hx
  · intro x f hx
    cases x with
    | dir =>
        cases hx
        exact hnodup.left
    | table i => cases hx
    | page v => cases hx
  · intro x y f hx hy
    cases x with
    | dir =>
        cases y with
        | dir => rfl
        | table i => cases hy
        | page v => cases hy
    | table i => cases hx
    | page v => cases hx

/-- Every address space that the kernel builds is sound. -/
theorem Built.sound {s : Phys} {free : List Nat} {d : Nat} (h : Built s free d) :
    Sound s free (layoutOf s d) ∧ s.exhausted = false := by
  induction h with
  | new pool fresh =>
      have hsound := newDir_sound pool
      have hlayout := hsound.layout
      rw [<- hlayout] at hsound
      exact ⟨hsound, fresh⟩
  | act old valid run fresh pool ih =>
      rcases Act.grows ih.left valid run fresh with ⟨free1, L1, hgrows⟩
      have hlayout := hgrows.sound.layout
      have hdir := hgrows.dir
      have hsound := hgrows.sound
      rw [<- hlayout, hdir, hgrows.sound.pool.unique pool] at hsound
      exact ⟨hsound, fresh⟩
  | others old pool unused same kernel fresh ih =>
      rename_i s s' free free' d
      have hsound : Sound s' free' (layoutOf s d) := by
        apply ih.left.untouched pool ?_ same kernel
        intro f hf
        exact Or.inr (fun x hx => unused x f hx hf)
      have hlayout := hsound.layout
      rw [<- hlayout] at hsound
      exact ⟨hsound, fresh⟩

/-!
# Two address spaces
-/

/-- Two sound address spaces that share no frame. -/
structure Isolated (s : Phys) (free : List Nat) (L C : Layout) : Prop where
  left : Sound s free L
  right : Sound s free C
  apart : L.Apart C

namespace Isolated

variable {s : Phys} {free : List Nat} {L C : Layout}

theorem symm (h : Isolated s free L C) : Isolated s free C L where
  left := h.right
  right := h.left
  apart x y f hx hy := h.apart y x f hy hx

/-- The frames of one address space are unused in the other and not free. -/
theorem keeps_right (h : Isolated s free L C) {s' : Phys} {free' : List Nat} {L' : Layout}
    (hgrows : Grows s free L s' free' L') {y : Slot} {f : Nat} (hy : C.frame y = some f) :
    s'.frame f = s.frame f :=
  hgrows.others f (fun x hx => h.apart x y f hx hy) (h.right.used y f hy)

theorem grows (h : Isolated s free L C) {s' : Phys} {free' : List Nat} {L' : Layout}
    (hgrows : Grows s free L s' free' L') : Isolated s' free' L' C where
  left := hgrows.sound
  right := by
    apply h.right.untouched hgrows.sound.pool (fun f hf => Or.inl (hgrows.taken f hf))
    · exact fun y f hy => h.keeps_right hgrows hy
    · apply hgrows.others
      · exact fun x hx => Sound.ne_kpgdir (h.left.inPool x kpgdirFrame hx) rfl
      · exact h.left.kpgdir_used
  apart x y f hx hy := by
    rcases hgrows.fresh x f hx with hold | hfree
    · exact h.apart x y f hold hy
    · exact h.right.used y f hy hfree

theorem userByte_right (h : Isolated s free L C) {s' : Phys} {free' : List Nat} {L' : Layout}
    (hgrows : Grows s free L s' free' L') (vaddr : Nat) :
    userByte s' C.dir vaddr = userByte s C.dir vaddr := by
  unfold userByte
  rw [h.right.layout, (h.grows hgrows).right.layout]
  cases hp : C.page (vaddr / 4096) with
  | none => rfl
  | some f =>
      show some (s'.frame f (vaddr % 4096)) = some (s.frame f (vaddr % 4096))
      rw [h.keeps_right hgrows (y := Slot.page _) hp]

end Isolated

/-- What the owners of the directories in frames `d` and `c` do later. -/
inductive Later (d c : Nat) : Phys -> Phys -> Prop where
  | refl (s : Phys) : Later d c s s
  | step {s t t' : Phys} {a : Act} {who : Nat} (before : Later d c s t) (owner : who = d ∨ who = c)
      (valid : a.Valid) (run : a.run who t = some t') (fresh : t'.exhausted = false) :
      Later d c s t'

/-- The two address spaces stay apart whatever their owners do. -/
theorem Later.isolated {d c : Nat} {s t : Phys} (h : Later d c s t) {free : List Nat}
    {L C : Layout} (hd : L.dir = d) (hc : C.dir = c) (hapart : Isolated s free L C) :
    exists free' L' C', L'.dir = d ∧ C'.dir = c ∧ Isolated t free' L' C' := by
  induction h with
  | refl => exact ⟨free, L, C, hd, hc, hapart⟩
  | step before owner valid run fresh ih =>
      rcases ih with ⟨free1, L1, C1, hd1, hc1, hold⟩
      rcases owner with howner | howner
      · rw [howner, <- hd1] at run
        rcases Act.grows hold.left valid run fresh with ⟨free2, L2, hgrows⟩
        exact ⟨free2, L2, C1, hgrows.dir.trans hd1, hc1, hold.grows hgrows⟩
      · rw [howner, <- hc1] at run
        rcases Act.grows hold.right valid run fresh with ⟨free2, C2, hgrows⟩
        exact ⟨free2, L1, C2, hd1, hgrows.dir.trans hc1, (hold.symm.grows hgrows).symm⟩

/-- A store of one owner at any later time leaves every user byte of the other. -/
theorem Later.store_other {d c : Nat} {s t : Phys} (h : Later d c s t) {free : List Nat}
    {L C : Layout} (hd : L.dir = d) (hc : C.dir = c) (hapart : Isolated s free L C)
    {vaddr : Nat} {byte : UInt8} {t' : Phys} (hstore : userStore d vaddr byte t = some t')
    (other : Nat) : userByte t' c other = userByte t c other := by
  rcases h.isolated hd hc hapart with ⟨free', L', C', hd', hc', hold⟩
  rw [<- hd'] at hstore
  rcases userStore_some hold.left hstore with ⟨f, hp, hs⟩
  rw [hs, <- hc']
  exact hold.userByte_right (hold.left.writePage hp _) other

theorem Later.symm {d c : Nat} {s t : Phys} (h : Later d c s t) : Later c d s t := by
  induction h with
  | refl => exact Later.refl _
  | step before owner valid run fresh ih => exact Later.step ih owner.symm valid run fresh

/-!
# `vm_copy`
-/

def vmCopyNeed (refill : Bool) (L : Layout) : Nat :=
  (if refill then 1 else 0) + copyNeed L.hasTable L.hasPage

/-- `kalloc` takes the first free frame and clears it. -/
theorem kallocVm_cons {s : Phys} {p : Nat} {rest : List Nat} (h : Pool s (p :: rest)) :
    kallocVm true s = Except.ok (true, (s.pop p).clear p) := by
  unfold kallocVm
  rw [if_pos rfl, h.palloc_cons.left, ok_bind]
  dsimp only
  rw [pageAt_paddr (h.inPool p List.mem_cons_self), ok_bind]

theorem Pool.kalloc {s : Phys} {p : Nat} {rest : List Nat} (h : Pool s (p :: rest)) :
    Pool ((s.pop p).clear p) rest := by
  have hnew := (List.nodup_cons.mp h.nodup).left
  refine h.palloc_cons.right.congr rfl ?_
  exact fun f hf => clear_of_ne (fun e => hnew (e ▸ hf))

theorem Sound.kalloc {s : Phys} {p : Nat} {rest : List Nat} {L : Layout}
    (h : Sound s (p :: rest) L) : Sound ((s.pop p).clear p) rest L := by
  have hp := fresh_head h
  apply h.outside h.pool.kalloc (fun _ hf => List.mem_cons_of_mem p hf) hp.unused hp.inPool
  exact fun f hf _ => clear_of_ne hf

/-- `kalloc` leaves the address spaces and the frames of others alone. -/
theorem kallocVm_sound (refill : Bool) {s : Phys} {free : List Nat} {L : Layout}
    (h : Sound s free L) (henough : (if refill then 1 else 0) ≤ free.length) :
    exists s' free', kallocVm refill s = Except.ok (true, s') ∧ Sound s' free' L ∧
      free'.length + (if refill then 1 else 0) = free.length ∧
      (forall f, f ∈ free' -> f ∈ free) ∧
      (forall f, Not (f ∈ free) -> s'.frame f = s.frame f) := by
  cases refill with
  | false => exact ⟨s, free, rfl, h, rfl, fun _ hf => hf, fun _ _ => rfl⟩
  | true =>
      cases free with
      | nil => cases henough
      | cons p rest =>
          refine ⟨(s.pop p).clear p, rest, kallocVm_cons h.pool, h.kalloc, rfl, ?_, ?_⟩
          · exact fun f hf => List.mem_cons_of_mem p hf
          · exact fun f hf => clear_of_ne (fun e => hf (e ▸ List.mem_cons_self))

/-- What `vm_copy` promises of the copy `C` of `L`. -/
structure Forked (s : Phys) (L : Layout) (s' : Phys) (free' : List Nat) (C : Layout) :
    Prop where
  mapping : layoutOf s' C.dir = C
  present : forall v, (C.page v).isSome = (L.page v).isSome
  contents : forall v f g, C.page v = some f -> L.page v = some g -> s'.frame f = s'.frame g
  once : forall x y f, C.frame x = some f -> C.frame y = some f -> x = y
  apart : L.Apart C
  notFree : forall x f, C.frame x = some f -> Not (f ∈ free')
  kernel : SharesKernel s' C.dir
  parent : forall x f, L.frame x = some f -> s'.frame f = s.frame f
  parentMapping : layoutOf s' L.dir = L
  parentStores : forall t vaddr byte t' other, Later L.dir C.dir s' t ->
    userStore L.dir vaddr byte t = some t' -> userByte t' C.dir other = userByte t C.dir other
  childStores : forall t vaddr byte t' other, Later L.dir C.dir s' t ->
    userStore C.dir vaddr byte t = some t' -> userByte t' L.dir other = userByte t L.dir other

theorem CopyOf.forked {s0 s s' : Phys} {free0 free free' : List Nat} {L C : Layout}
    (h : Sound s0 free0 L) (hsub : forall f, f ∈ free -> f ∈ free0)
    (hbefore : forall f, Not (f ∈ free0) -> s.frame f = s0.frame f)
    (hcopy : CopyOf s free L s' free' C) : Forked s0 L s' free' C := by
  have hisolated : Isolated s' free' L C := ⟨hcopy.parent, hcopy.child, hcopy.apart⟩
  have hparent : forall x f, L.frame x = some f ->
      s'.frame f = s.frame f ∧ s.frame f = s0.frame f := by
    intro x f hx
    have hused := h.used x f hx
    exact ⟨hcopy.others f (fun hmem => hused (hsub f hmem)), hbefore f hused⟩
  constructor
  · exact hcopy.child.layout
  · exact hcopy.present
  · intro v f g hf hg
    rw [hcopy.contents v f g hf hg]
    exact (hparent (Slot.page v) g hg).left.symm
  · exact hcopy.child.own
  · exact hcopy.apart
  · exact hcopy.child.used
  · exact hcopy.child.kernel
  · exact fun x f hx => (hparent x f hx).left.trans (hparent x f hx).right
  · exact hcopy.parent.layout
  · exact fun t vaddr byte t' other hlater hstore =>
      hlater.store_other rfl rfl hisolated hstore other
  · exact fun t vaddr byte t' other hlater hstore =>
      hlater.symm.store_other rfl rfl hisolated.symm hstore other

/-- `vm_copy` of an address space that the kernel has built isolates parent and child. -/
theorem fork_isolation (refill : Bool) (s : Phys) (free : List Nat) (d brk : Nat)
    (h : Built s free d) (henough : vmCopyNeed refill (layoutOf s d) ≤ free.length) :
    exists s' free' C, vmCopy refill { pgdir := kernelAddr d, brk := brk } s =
        Except.ok (some { pgdir := kernelAddr C.dir, brk := brk }, s') ∧
      Pool s' free' ∧ Forked s (layoutOf s d) s' free' C := by
  have hsound := h.sound.left
  unfold vmCopyNeed at henough
  rcases kallocVm_sound refill hsound (by lia) with
    ⟨s1, free1, hkalloc, hsound1, hlen, hsub, hsame⟩
  rcases pgdirCopy_enough hsound1 (by lia) with ⟨c, s', free', C, hrun, hdir, hcopy⟩
  refine ⟨s', free', C, ?_, hcopy.child.pool, hcopy.forked hsound hsub hsame⟩
  have hdirL : (layoutOf s d).dir = d := rfl
  rw [hdirL] at hrun
  unfold vmCopy
  rw [hkalloc, ok_bind]
  dsimp only
  rw [hrun, ok_bind]
  dsimp only
  rw [if_neg (kernelAddr_ne_zero c), hdir]

/-- A new address space with six free frames behind it. -/
def emptyParent : Phys := newDir (freeFrames [1024, 1025, 1026, 1027, 1028, 1029, 1030]) 1024

def pagedParent : Phys := ((Act.valloc userBase 1).run 1024 emptyParent).getD emptyParent

def storedParent : Phys := ((Act.store (userBase + 5) 7).run 1024 pagedParent).getD pagedParent

theorem getD_run {d : Nat} {a : Act} {s : Phys} (h : (a.run d s).isSome = true) :
    a.run d s = some ((a.run d s).getD s) := by
  rcases Option.isSome_iff_exists.mp h with ⟨t, ht⟩
  rw [ht]
  rfl

theorem storedParent_built : Built storedParent [1027, 1028, 1029, 1030] 1024 := by
  have hstart : Pool (freeFrames [1024, 1025, 1026, 1027, 1028, 1029, 1030])
      [1024, 1025, 1026, 1027, 1028, 1029, 1030] := freeFrames_pool (by decide) (by decide)
  have hpaged : Pool pagedParent [1027, 1028, 1029, 1030] :=
    ⟨by decide +kernel, by decide, by decide⟩
  have hvalid : (Act.valloc userBase 1).Valid := by
    show userBase + 4096 * 1 ≤ kernelBase
    decide
  have hpage := Built.act (Built.new hstart rfl) hvalid (getD_run (by decide +kernel))
    (by decide +kernel) hpaged
  have hstored : Pool storedParent [1027, 1028, 1029, 1030] :=
    ⟨by decide +kernel, by decide, by decide⟩
  have hstore : (Act.store (userBase + 5) 7).Valid := trivial
  exact Built.act hpage hstore (getD_run (by decide +kernel)) (by decide +kernel) hstored

/-- The child keeps the byte that the parent overwrites. -/
theorem fork_isolation_storedParent :
    exists s' free' C, vmCopy false { pgdir := kernelAddr 1024, brk := userHeapBase } storedParent =
        Except.ok (some { pgdir := kernelAddr C.dir, brk := userHeapBase }, s') ∧
      Pool s' free' ∧ Forked storedParent (layoutOf storedParent 1024) s' free' C ∧
      userByte s' C.dir (userBase + 5) = some 7 ∧
      exists t, userStore 1024 (userBase + 5) 9 s' = some t ∧
        userByte t C.dir (userBase + 5) = some 7 := by
  rcases fork_isolation false storedParent [1027, 1028, 1029, 1030] 1024 userHeapBase
    storedParent_built (by decide +kernel) with ⟨s', free', C, hrun, hpool, hforked⟩
  have hv : (userBase + 5) / 4096 = userBase / 4096 := by decide
  have hpage : (layoutOf storedParent 1024).page (userBase / 4096) = some 1025 := by
    decide +kernel
  have hsome := hforked.present (userBase / 4096)
  rw [hpage] at hsome
  rcases Option.isSome_iff_exists.mp hsome with ⟨f, hf⟩
  have hchild : userByte s' C.dir (userBase + 5) = some 7 := by
    have hbyte : storedParent.frame 1025 ((userBase + 5) % 4096) = 7 := by decide +kernel
    unfold userByte
    rw [hforked.mapping, hv, hf]
    show some (s'.frame f ((userBase + 5) % 4096)) = some 7
    rw [hforked.contents _ f 1025 hf hpage, hforked.parent (Slot.page _) 1025 hpage, hbyte]
  refine ⟨s', free', C, hrun, hpool, hforked, hchild, ?_⟩
  have hparent : layoutOf s' 1024 = layoutOf storedParent 1024 := hforked.parentMapping
  have hstore : exists t, userStore 1024 (userBase + 5) 9 s' = some t := by
    unfold userStore
    rw [hparent, hv, hpage]
    exact ⟨_, rfl⟩
  rcases hstore with ⟨t, ht⟩
  refine ⟨t, ht, ?_⟩
  rw [hforked.parentStores s' _ 9 t _ (Later.refl s') ht, hchild]

end Vm
end Kernel
end NicoOS
