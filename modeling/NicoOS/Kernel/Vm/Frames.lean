import NicoOS.Kernel.Vm.Model

/-!
# Frames in use and free frames

An address space is described by the frames of its directory, tables and pages.
The description is kept by every write to a frame that it does not use.
-/

namespace NicoOS
namespace Kernel
namespace Vm

open Lib

/-!
# Addresses and entries
-/

/-- Frames that the free list may hold. -/
def InPool (f : Nat) : Prop := 1024 ≤ f ∧ f < 262144

instance (f : Nat) : Decidable (InPool f) := inferInstanceAs (Decidable (1024 ≤ f ∧ f < 262144))

theorem entryPaddr_eq (e : Nat) : entryPaddr e = 4096 * (e / 4096 % 1048576) := by
  have hdiv : entryPaddr e / 2 ^ 12 = e / 2 ^ 12 % 2 ^ 20 := by
    unfold entryPaddr
    rw [Nat.and_div_two_pow, show 0xFFFFF000 / 2 ^ 12 = 2 ^ 20 - 1 from rfl,
      Nat.and_two_pow_sub_one_eq_mod]
  have hmod : entryPaddr e % 2 ^ 12 = 0 := by
    unfold entryPaddr
    rw [Nat.and_mod_two_pow, show 0xFFFFF000 % 2 ^ 12 = 0 from rfl, Nat.and_zero]
  lia

theorem isPresent_iff (e : Nat) : isPresent e = true <-> e % 2 = 1 := by
  unfold isPresent pgPresent
  rw [decide_eq_true_iff, Nat.and_one_is_mod]
  lia

theorem make_eq (f : Nat) : 4096 * f ||| pgUser ||| pgPresent = 4096 * f + 7 := by
  unfold pgUser pgPresent
  have hseven : (4096 * f ||| 6) ||| 1 = 4096 * f ||| 7 := by
    rw [Nat.or_assoc]
    rfl
  rw [hseven]
  exact (Nat.two_pow_add_eq_or_of_lt (i := 12) (by lia) f).symm

def target (e : Nat) : Option Nat :=
  if isPresent e then some (entryPaddr e / pgSize) else none

theorem target_none_iff (e : Nat) : target e = none <-> isPresent e = false := by
  unfold target
  by_cases h : isPresent e = true
  · rw [if_pos h, h]
    constructor
    · intro hsome
      cases hsome
    · intro htrue
      cases htrue
  · rw [if_neg h]
    exact ⟨fun _ => eq_false_of_ne_true h, fun _ => rfl⟩

theorem target_some {e f : Nat} (h : target e = some f) :
    isPresent e = true ∧ entryPaddr e = 4096 * f := by
  unfold target at h
  split at h
  · rename_i hpresent
    cases h
    refine ⟨hpresent, ?_⟩
    rw [entryPaddr_eq]
    unfold pgSize
    lia
  · cases h

theorem target_make {f : Nat} (h : InPool f) :
    target (4096 * f ||| pgUser ||| pgPresent) = some f := by
  rcases h with ⟨-, hhigh⟩
  rw [make_eq]
  have hpresent : isPresent (4096 * f + 7) = true := (isPresent_iff _).mpr (by lia)
  unfold target
  rw [if_pos hpresent, entryPaddr_eq]
  unfold pgSize
  congr 1
  lia

theorem make_lt {f : Nat} (h : InPool f) : 4096 * f ||| pgUser ||| pgPresent < 0x100000000 := by
  rcases h with ⟨-, hhigh⟩
  rw [make_eq]
  lia

/-- The kernel address of a frame. -/
def kernelAddr (f : Nat) : Nat := kernelBase + 4096 * f

theorem kernelBase_eq : kernelBase = 2147483648 := rfl

theorem vmemoryTop_eq : vmemoryTop = 3221225472 := rfl

theorem kernelAddr_eq (f : Nat) : kernelAddr f = 2147483648 + 4096 * f := rfl

theorem wrap_eq (a : Nat) : wrap a = a % 4294967296 := by
  unfold wrap
  rfl

theorem kv2p_eq (a : Nat) : kv2p a = (a + 2147483648) % 4294967296 := wrap_eq _

theorem kp2v_eq (a : Nat) : kp2v a = (a + 2147483648) % 4294967296 := wrap_eq _

theorem kv2p_zero : kv2p 0 = kernelBase := by
  rw [kv2p_eq, kernelBase_eq]

theorem kv2p_kernelAddr {f : Nat} (h : InPool f) : kv2p (kernelAddr f) = 4096 * f := by
  rcases h with ⟨-, hhigh⟩
  rw [kv2p_eq, kernelAddr_eq]
  omega

theorem kp2v_paddr_of_lt {f : Nat} (h : f < 262144) : kp2v (4096 * f) = kernelAddr f := by
  rw [kp2v_eq, kernelAddr_eq]
  omega

theorem kp2v_paddr {f : Nat} (h : InPool f) : kp2v (4096 * f) = kernelAddr f :=
  kp2v_paddr_of_lt h.right

theorem kv2p_eq_kp2v (a : Nat) : kv2p a = kp2v a := by
  rw [kv2p_eq, kp2v_eq]

theorem pageAt_of_lt {f : Nat} (h : f < 262144) (s : Phys) :
    pageAt (kernelAddr f) s = Except.ok f := by
  have hin : kernelBase ≤ kernelAddr f ∧ kernelAddr f < vmemoryTop := by
    rw [kernelBase_eq, vmemoryTop_eq, kernelAddr_eq]
    omega
  have hdiv : (kernelAddr f - kernelBase) / pgSize = f := by
    rw [kernelBase_eq, kernelAddr_eq]
    unfold pgSize
    omega
  unfold pageAt
  rw [if_pos hin, hdiv]

theorem pageAt_kernelAddr {f : Nat} (h : InPool f) (s : Phys) :
    pageAt (kernelAddr f) s = Except.ok f :=
  pageAt_of_lt h.right s

theorem pageAt_paddr {f : Nat} (h : InPool f) (s : Phys) :
    pageAt (kp2v (4096 * f)) s = Except.ok f := by
  rw [kp2v_paddr h]
  exact pageAt_kernelAddr h s

theorem entryVaddr_of_lt {e f : Nat} (h : target e = some f) (hf : f < 262144) :
    entryVaddr e = kernelAddr f := by
  unfold entryVaddr
  rw [(target_some h).right, kv2p_eq_kp2v]
  exact kp2v_paddr_of_lt hf

theorem entryVaddr_of_target {e f : Nat} (h : target e = some f) (hf : InPool f) :
    entryVaddr e = kernelAddr f :=
  entryVaddr_of_lt h hf.right

theorem tableAt_of_lt {s : Phys} {d nr f : Nat} (h : target (s.entry d nr) = some f)
    (hf : f < 262144) : tableAt d nr s = Except.ok f := by
  unfold tableAt
  rw [entryVaddr_of_lt h hf]
  exact pageAt_of_lt hf s

theorem tableAt_of_target {s : Phys} {d nr f : Nat} (h : target (s.entry d nr) = some f)
    (hf : InPool f) : tableAt d nr s = Except.ok f :=
  tableAt_of_lt h hf.right

/-!
# Writes to frames
-/

section Writes

variable {s : Phys}

@[simp] theorem setFrame_self (f : Nat) (data : Memory) : (s.setFrame f data).frame f = data :=
  if_pos rfl

theorem setFrame_of_ne {f g : Nat} (data : Memory) (h : g ≠ f) :
    (s.setFrame f data).frame g = s.frame g :=
  if_neg h

theorem entry_setEntry_self {f nr value : Nat} (hvalue : value < 0x100000000) :
    (s.setEntry f nr value).entry f nr = value := by
  unfold Phys.entry Phys.setEntry
  rw [setFrame_self]
  exact Memory.word_setWord_self _ _ hvalue

theorem entry_setEntry_of_ne {f nr k value : Nat} (h : k ≠ nr) :
    (s.setEntry f nr value).entry f k = s.entry f k := by
  unfold Phys.entry Phys.setEntry
  rw [setFrame_self]
  apply Memory.word_setWord_of_apart
  lia

theorem setEntry_of_ne {f nr value g : Nat} (h : g ≠ f) :
    (s.setEntry f nr value).frame g = s.frame g :=
  setFrame_of_ne _ h

theorem entry_clear (f nr : Nat) : (s.clear f).entry f nr = 0 := by
  unfold Phys.entry Phys.clear
  rw [setFrame_self]
  rfl

theorem clear_of_ne {f g : Nat} (h : g ≠ f) : (s.clear f).frame g = s.frame g :=
  setFrame_of_ne _ h

theorem entry_congr {s' : Phys} {f : Nat} (h : s'.frame f = s.frame f) (nr : Nat) :
    s'.entry f nr = s.entry f nr := by
  unfold Phys.entry
  rw [h]

end Writes

/-!
# The free list
-/

/-- The links from an address pass through exactly the given frames. -/
def Linked (frame : Nat -> Memory) : Nat -> List Nat -> Prop
  | head, [] => head = 0
  | head, f :: rest => head = kernelAddr f ∧ Linked frame ((frame f).word 0) rest

instance decidableLinked (frame : Nat -> Memory) :
    (head : Nat) -> (free : List Nat) -> Decidable (Linked frame head free)
  | head, [] => inferInstanceAs (Decidable (head = 0))
  | head, f :: rest =>
      have := decidableLinked frame ((frame f).word 0) rest
      inferInstanceAs (Decidable (head = kernelAddr f ∧ Linked frame ((frame f).word 0) rest))

theorem Linked.congr {frame frame' : Nat -> Memory} {head : Nat} {free : List Nat}
    (h : Linked frame head free) (hsame : forall f, f ∈ free -> frame' f = frame f) :
    Linked frame' head free := by
  induction free generalizing head with
  | nil => exact h
  | cons f rest ih =>
      rcases h with ⟨hhead, hrest⟩
      refine ⟨hhead, ?_⟩
      rw [hsame f List.mem_cons_self]
      exact ih hrest (fun g hg => hsame g (List.mem_cons_of_mem f hg))

/-- The free list is sound and holds the given frames. -/
structure Pool (s : Phys) (free : List Nat) : Prop where
  linked : Linked s.frame s.freeList free
  nodup : free.Nodup
  inPool : forall f, f ∈ free -> InPool f

/-- The state behind a `palloc` that takes the first free frame. -/
def Phys.pop (s : Phys) (f : Nat) : Phys := { s with freeList := (s.frame f).word 0 }

theorem Pool.palloc_cons {s : Phys} {f : Nat} {rest : List Nat} (h : Pool s (f :: rest)) :
    palloc s = Except.ok (4096 * f, s.pop f) ∧ Pool (s.pop f) rest := by
  have hf := h.inPool f List.mem_cons_self
  rcases h.linked with ⟨hhead, hrest⟩
  constructor
  · have hnull : s.freeList ≠ 0 := by
      rw [hhead, kernelAddr_eq]
      omega
    unfold palloc
    rw [if_pos hnull, hhead, pageAt_kernelAddr hf, kv2p_kernelAddr hf]
    rfl
  · exact ⟨hrest, (List.nodup_cons.mp h.nodup).right,
      fun g hg => h.inPool g (List.mem_cons_of_mem f hg)⟩

theorem Pool.palloc_nil {s : Phys} (h : Pool s []) :
    palloc s = Except.ok (kernelBase, { s with exhausted := true }) := by
  have hhead : s.freeList = 0 := h.linked
  unfold palloc
  rw [if_neg (fun hne => hne hhead), kv2p_zero]

theorem Pool.congr {s s' : Phys} {free : List Nat} (h : Pool s free)
    (hlist : s'.freeList = s.freeList) (hsame : forall f, f ∈ free -> s'.frame f = s.frame f) :
    Pool s' free where
  linked := by
    rw [hlist]
    exact h.linked.congr hsame
  nodup := h.nodup
  inPool := h.inPool

/-- The state behind a frame that is linked in front of the list. -/
def Phys.push (s : Phys) (f : Nat) : Phys :=
  { s.setFrame f ((s.frame f).setWord 0 s.freeList) with freeList := kernelAddr f }

/-- A frame that is not free is linked in front of the list. -/
theorem Pool.push {s : Phys} {free : List Nat} (h : Pool s free) {f : Nat} (hf : InPool f)
    (hnew : Not (f ∈ free)) : Pool (s.push f) (f :: free) := by
  have hlt : s.freeList < 0x100000000 := by
    cases free with
    | nil =>
        rw [show s.freeList = 0 from h.linked]
        lia
    | cons g rest =>
        rw [h.linked.left]
        have hg := (h.inPool g List.mem_cons_self).right
        rw [kernelAddr_eq]
        omega
  constructor
  · refine ⟨rfl, ?_⟩
    have hword : ((s.push f).frame f).word 0 = s.freeList := by
      rw [show (s.push f).frame f = (s.frame f).setWord 0 s.freeList from if_pos rfl]
      exact Memory.word_setWord_self _ _ hlt
    rw [hword]
    exact h.linked.congr (fun g hg => setFrame_of_ne _ (fun e => hnew (e ▸ hg)))
  · exact List.nodup_cons.mpr ⟨hnew, h.nodup⟩
  · intro g hg
    rcases List.mem_cons.mp hg with hg | hg
    · rw [hg]
      exact hf
    · exact h.inPool g hg

/-- A memory of zeros with the given free frames. -/
def freeFrames : List Nat -> Phys
  | [] => { frame := fun _ _ => 0, freeList := 0, exhausted := false }
  | f :: rest => (freeFrames rest).push f

theorem freeFrames_pool {free : List Nat} (hnodup : free.Nodup)
    (hpool : forall f, f ∈ free -> InPool f) : Pool (freeFrames free) free := by
  induction free with
  | nil => exact ⟨rfl, hnodup, hpool⟩
  | cons f rest ih =>
      rcases List.nodup_cons.mp hnodup with ⟨hnew, hrest⟩
      have hfree := ih hrest (fun g hg => hpool g (List.mem_cons_of_mem f hg))
      exact hfree.push (hpool f List.mem_cons_self) hnew

theorem freeFrames_of_used {free : List Nat} {f : Nat} (h : Not (f ∈ free)) :
    (freeFrames free).frame f = fun _ => 0 := by
  induction free with
  | nil => rfl
  | cons g rest ih =>
      have hne : f ≠ g := fun e => h (e ▸ List.mem_cons_self)
      have hsame : ((freeFrames rest).push g).frame f = (freeFrames rest).frame f := if_neg hne
      unfold freeFrames
      rw [hsame]
      exact ih (fun hmem => h (List.mem_cons_of_mem g hmem))

theorem pfree_push {f : Nat} (hf : InPool f) (s : Phys) :
    Vm.pfree (4096 * f) s = Except.ok (s.push f) := by
  have hnull : 4096 * f ≠ 0 := by
    rcases hf with ⟨hlow, -⟩
    lia
  unfold Vm.pfree
  rw [if_pos hnull, pageAt_paddr hf, kp2v_paddr hf]
  rfl

theorem Pool.pfree {s : Phys} {free : List Nat} (h : Pool s free) {f : Nat} (hf : InPool f)
    (hnew : Not (f ∈ free)) :
    exists s', Vm.pfree (4096 * f) s = Except.ok s' ∧ Pool s' (f :: free) ∧
      (forall g, g ≠ f -> s'.frame g = s.frame g) ∧ s'.exhausted = s.exhausted :=
  ⟨s.push f, pfree_push hf s, h.push hf hnew, fun _ hg => setFrame_of_ne _ hg, rfl⟩

/-!
# Address spaces
-/

/-- What an address space uses a frame for; pages are given by their virtual page number. -/
inductive Slot where
  | dir
  | table (i : Nat)
  | page (v : Nat)

/-- The frames of an address space. -/
structure Layout where
  dir : Nat
  table : Nat -> Option Nat
  page : Nat -> Option Nat

def Layout.frame (L : Layout) : Slot -> Option Nat
  | Slot.dir => some L.dir
  | Slot.table i => L.table i
  | Slot.page v => L.page v

/-- The layout that the entries of a directory and its tables give. -/
def layoutOf (s : Phys) (d : Nat) : Layout where
  dir := d
  table i := if i < 512 then target (s.entry d i) else none
  page v :=
    if v / 1024 < 512 then
      (target (s.entry d (v / 1024))).bind (fun t => target (s.entry t (v % 1024)))
    else
      none

/-- Entries of the kernel's part are those of the kernel's own directory. -/
def SharesKernel (s : Phys) (d : Nat) : Prop :=
  forall i, 512 ≤ i -> i < 768 -> s.entry d i = s.entry kpgdirFrame i

/-- The address space uses every frame once, and none that is free. -/
structure Sound (s : Phys) (free : List Nat) (L : Layout) : Prop where
  pool : Pool s free
  layout : layoutOf s L.dir = L
  kernel : SharesKernel s L.dir
  inPool : forall x f, L.frame x = some f -> InPool f
  used : forall x f, L.frame x = some f -> Not (f ∈ free)
  own : forall x y f, L.frame x = some f -> L.frame y = some f -> x = y

namespace Sound

variable {s : Phys} {free : List Nat} {L : Layout}

theorem dir_inPool (h : Sound s free L) : InPool L.dir := h.inPool Slot.dir L.dir rfl

theorem target_dir (h : Sound s free L) {i : Nat} (hi : i < 512) :
    target (s.entry L.dir i) = L.table i := by
  have heq : (layoutOf s L.dir).table i = L.table i := by rw [h.layout]
  rw [<- heq]
  exact (if_pos hi).symm

theorem target_table (h : Sound s free L) {i j t : Nat} (hi : i < 512) (hj : j < 1024)
    (ht : L.table i = some t) : target (s.entry t j) = L.page (1024 * i + j) := by
  have heq : (layoutOf s L.dir).page (1024 * i + j) = L.page (1024 * i + j) := by rw [h.layout]
  have hdiv : (1024 * i + j) / 1024 = i := by lia
  have hmod : (1024 * i + j) % 1024 = j := by lia
  rw [<- heq]
  show _ = if (1024 * i + j) / 1024 < 512 then _ else none
  rw [hdiv, hmod, if_pos hi, h.target_dir hi, ht]
  rfl

theorem table_lt (h : Sound s free L) {i t : Nat} (ht : L.table i = some t) : i < 512 := by
  by_cases hi : i < 512
  · exact hi
  · have heq : (layoutOf s L.dir).table i = L.table i := by rw [h.layout]
    rw [ht] at heq
    have hnone : (layoutOf s L.dir).table i = none := if_neg hi
    rw [hnone] at heq
    cases heq

theorem page_table (h : Sound s free L) {v f : Nat} (hv : L.page v = some f) :
    v / 1024 < 512 ∧ exists t, L.table (v / 1024) = some t := by
  have heq : (layoutOf s L.dir).page v = some f := by rw [h.layout, hv]
  by_cases hi : v / 1024 < 512
  · refine ⟨hi, ?_⟩
    have hbind : (target (s.entry L.dir (v / 1024))).bind
        (fun t => target (s.entry t (v % 1024))) = some f := by
      rw [<- heq]
      exact (if_pos hi).symm
    rw [h.target_dir hi] at hbind
    cases ht : L.table (v / 1024) with
    | none =>
        rw [ht] at hbind
        cases hbind
    | some t => exact ⟨t, rfl⟩
  · have hnone : (layoutOf s L.dir).page v = none := if_neg hi
    rw [hnone] at heq
    cases heq

end Sound

theorem layout_ext {L M : Layout} (hdir : L.dir = M.dir) (htable : forall i, L.table i = M.table i)
    (hpage : forall v, L.page v = M.page v) : L = M := by
  cases L
  cases M
  have ht := funext htable
  have hp := funext hpage
  dsimp only at hdir ht hp
  rw [hdir, ht, hp]

theorem layoutOf_eq {s : Phys} {L : Layout}
    (hdir : forall i, i < 512 -> target (s.entry L.dir i) = L.table i)
    (htable : forall i t, i < 512 -> L.table i = some t -> forall j, j < 1024 ->
      target (s.entry t j) = L.page (1024 * i + j))
    (hbare : forall i, i < 512 -> L.table i = none -> forall j, j < 1024 ->
      L.page (1024 * i + j) = none)
    (houtTable : forall i, 512 ≤ i -> L.table i = none)
    (houtPage : forall v, 512 ≤ v / 1024 -> L.page v = none) : layoutOf s L.dir = L := by
  apply layout_ext
  · rfl
  · intro i
    by_cases hi : i < 512
    · show (if i < 512 then _ else none) = _
      rw [if_pos hi]
      exact hdir i hi
    · show (if i < 512 then _ else none) = _
      rw [if_neg hi]
      exact (houtTable i (by lia)).symm
  · intro v
    have hsplit : 1024 * (v / 1024) + v % 1024 = v := by lia
    have hmod : v % 1024 < 1024 := by lia
    show (if v / 1024 < 512 then _ else none) = _
    by_cases hi : v / 1024 < 512
    · rw [if_pos hi, hdir _ hi]
      cases ht : L.table (v / 1024) with
      | none =>
          have hnone := hbare _ hi ht (v % 1024) hmod
          rw [hsplit] at hnone
          exact hnone.symm
      | some t =>
          have hsome := htable _ t hi ht (v % 1024) hmod
          rw [hsplit] at hsome
          exact hsome
    · rw [if_neg hi]
      exact (houtPage v (by lia)).symm

/-- A state that keeps the directory and the tables keeps the layout. -/
theorem Sound.congr {s s' : Phys} {free free' : List Nat} {L : Layout} (h : Sound s free L)
    (hpool : Pool s' free') (hsub : forall f, f ∈ free' -> f ∈ free ∨ forall x, L.frame x ≠ some f)
    (hdir : forall i, s'.entry L.dir i = s.entry L.dir i)
    (htable : forall i t, L.table i = some t -> forall j, s'.entry t j = s.entry t j)
    (hkernel : forall i, 512 ≤ i -> i < 768 -> s'.entry kpgdirFrame i = s.entry kpgdirFrame i) :
    Sound s' free' L where
  pool := hpool
  layout := by
    apply layoutOf_eq
    · intro i hi
      rw [hdir i]
      exact h.target_dir hi
    · intro i t hi ht j hj
      rw [htable i t ht j]
      exact h.target_table hi hj ht
    · intro i hi ht j hj
      cases hp : L.page (1024 * i + j) with
      | none => rfl
      | some f =>
          rcases (h.page_table hp).right with ⟨t, hsome⟩
          rw [show (1024 * i + j) / 1024 = i by lia, ht] at hsome
          cases hsome
    · intro i hi
      cases ht : L.table i with
      | none => rfl
      | some t =>
          have hlt := h.table_lt ht
          lia
    · intro v hv
      cases hp : L.page v with
      | none => rfl
      | some f =>
          have hlt := (h.page_table hp).left
          lia
  kernel i hlow hhigh := by
    rw [hdir i, hkernel i hlow hhigh]
    exact h.kernel i hlow hhigh
  inPool := h.inPool
  used x f hx hf := by
    rcases hsub f hf with hold | hnone
    · exact h.used x f hx hold
    · exact hnone x hx
  own := h.own

/-- An address space stays where no write goes to its frames or to the kernel's directory. -/
theorem Sound.untouched {s s' : Phys} {free free' : List Nat} {L : Layout} (h : Sound s free L)
    (hpool : Pool s' free') (hsub : forall f, f ∈ free' -> f ∈ free ∨ forall x, L.frame x ≠ some f)
    (hsame : forall x f, L.frame x = some f -> s'.frame f = s.frame f)
    (hkernel : s'.frame kpgdirFrame = s.frame kpgdirFrame) : Sound s' free' L := by
  apply h.congr hpool hsub
  · exact fun i => entry_congr (hsame Slot.dir L.dir rfl) i
  · exact fun i t ht j => entry_congr (hsame (Slot.table i) t ht) j
  · exact fun i _ _ => entry_congr hkernel i

end Vm
end Kernel
end NicoOS
