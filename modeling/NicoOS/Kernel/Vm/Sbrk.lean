import NicoOS.Kernel.Vm.Clearing
import NicoOS.Lib.Transition

/-!
# The heap over runs of sbrk

What `vm_grow_userheap` makes of the break and the mappings, over any run of calls that
find their frames.  The loop visits one address in each page length, counted from the
old break, so the page of the new break may be left out.
-/

namespace NicoOS
namespace Kernel
namespace Vm

open Lib

/-!
# Entries for the user
-/

/-- The page is present, and both entries let the user write to it. -/
def UserWritable (s : Phys) (d v : Nat) : Prop :=
  s.entry d (v / 1024) % 8 = 7 ∧ exists t, target (s.entry d (v / 1024)) = some t ∧
    s.entry t (v % 1024) % 8 = 7

structure UserEntries (s : Phys) (L : Layout) : Prop where
  table : forall i, L.table i ≠ none -> s.entry L.dir i % 8 = 7
  page : forall i t j, L.table i = some t -> j < 1024 -> L.page (1024 * i + j) ≠ none ->
    s.entry t j % 8 = 7

theorem link_mod (f : Nat) : link f % 8 = 7 := by
  unfold link
  rw [make_eq]
  omega

section Entries

variable {s : Phys} {free : List Nat} {L : Layout}

theorem UserEntries.writable (h : UserEntries s L) (hs : Sound s free L) {v : Nat}
    (hv : L.page v ≠ none) : UserWritable s L.dir v := by
  cases hp : L.page v with
  | none => exact absurd hp hv
  | some f =>
      rcases hs.page_table hp with ⟨hi, t, ht⟩
      have hsum : 1024 * (v / 1024) + v % 1024 = v := Nat.div_add_mod v 1024
      refine ⟨h.table _ (by rw [ht]; exact fun e => nomatch e), t, ?_, ?_⟩
      · rw [hs.target_dir hi, ht]
      · apply h.page (v / 1024) t _ ht (Nat.mod_lt _ (by decide))
        rw [hsum]
        exact hv

theorem UserEntries.pop (h : UserEntries s L) (f : Nat) : UserEntries (s.pop f) L where
  table := h.table
  page := h.page

theorem UserEntries.setPage (h : UserEntries s L) (hs : Sound s free L) {i j t f : Nat}
    (hj : j < 1024) (ht : L.table i = some t) (hf : InPool f) :
    UserEntries (s.setEntry t j (link f)) (L.setPage (1024 * i + j) f) where
  table k hk := by
    have hne : L.dir ≠ t := fun e => hs.table_ne_dir ht e.symm
    show (s.setEntry t j (link f)).entry L.dir k % 8 = 7
    rw [entry_setEntry t j L.dir k (link_lt hf), if_neg (fun e => hne e.left)]
    exact h.table k hk
  page k u l hu hl hpage := by
    rw [entry_setEntry t j u l (link_lt hf)]
    by_cases hhit : u = t ∧ l = j
    · rw [if_pos hhit]
      exact link_mod f
    · rw [if_neg hhit]
      apply h.page k u l hu hl
      intro hnone
      apply hpage
      have hother : 1024 * k + l ≠ 1024 * i + j := by
        intro e
        have hk : k = i := by omega
        have hl' : l = j := by omega
        apply hhit
        refine ⟨?_, hl'⟩
        have hu' : some u = some t := by
          rw [<- ht, <- hk]
          exact hu.symm
        exact Option.some.inj hu'
      show (if 1024 * k + l = 1024 * i + j then some f else L.page (1024 * k + l)) = none
      rw [if_neg hother]
      exact hnone

theorem UserEntries.setTable {rest : List Nat} {t : Nat} (h : UserEntries s L)
    (hs : Sound s (t :: rest) L) {i : Nat} (hi : i < 512) (hnone : L.table i = none) :
    UserEntries (withTable s L.dir i t) (L.setTable i t) := by
  have ht := hs.pool.inPool t List.mem_cons_self
  have hnew := hs.unused_of_free (List.mem_cons_self : t ∈ t :: rest)
  have hdir : L.dir ≠ t := fun e => hnew Slot.dir (congrArg some e)
  have hentry : forall g k, (withTable s L.dir i t).entry g k =
      if g = L.dir ∧ k = i then link t else if g = t then 0 else s.entry g k := by
    intro g k
    unfold withTable
    rw [entry_setEntry L.dir i g k (link_lt ht), entry_clear_eq]
    rfl
  constructor
  · intro k hk
    show (withTable s L.dir i t).entry L.dir k % 8 = 7
    rw [hentry]
    by_cases hki : k = i
    · rw [if_pos ⟨rfl, hki⟩]
      exact link_mod t
    · rw [if_neg (fun e => hki e.right), if_neg hdir]
      apply h.table k
      intro hold
      apply hk
      show (if k = i then some t else L.table k) = none
      rw [if_neg hki]
      exact hold
  · intro k u j hu hj hpage
    have hu' : (if k = i then some t else L.table k) = some u := hu
    by_cases hki : k = i
    · rw [hki] at hpage
      exact absurd (hs.bare hnone hj) hpage
    · rw [if_neg hki] at hu'
      have hud : u ≠ L.dir := hs.table_ne_dir hu'
      have hut : u ≠ t := fun e => hnew (Slot.table k) (e ▸ hu')
      rw [hentry, if_neg (fun e => hud e.left), if_neg hut]
      exact h.page k u j hu' hj hpage

theorem UserEntries.mapPage {f vaddr : Nat} {rest free' : List Nat} {s' : Phys} {L' : Layout}
    (h : UserEntries s L) (hs : Sound s (f :: rest) L) (hv : vaddr < kernelBase)
    (hnone : L.page (vaddr / 4096) = none)
    (henough : pageCost L.hasTable (vaddr / 4096) ≤ (f :: rest).length)
    (hpage : NewPage s f rest L vaddr s' free' L') : UserEntries s' L' := by
  rcases vaddr_parts hv with ⟨hpde, -, hi, hj, hsum⟩
  have hf := hs.pool.inPool f List.mem_cons_self
  have hsame : forall {s1 : Phys} {L1 : Layout} {free1 : List Nat},
      NewPage s f rest L vaddr s1 free1 L1 -> s' = s1 ∧ L' = L1 := by
    intro s1 L1 free1 h1
    have hrun := Except.ok.inj (hpage.run.symm.trans h1.run)
    have hs1 : s' = s1 := (Prod.mk.inj hrun).right
    refine ⟨hs1, ?_⟩
    have hdir : L'.dir = L1.dir := hpage.grown.dir.trans h1.grown.dir.symm
    rw [<- hpage.grown.sound.layout, <- h1.grown.sound.layout, hs1, hdir]
  cases ht : L.table (pdeNr vaddr) with
  | some t =>
      rcases hsame (newPage_ready hs hv hnone ht) with ⟨hs1, hL1⟩
      have hnext := (h.pop f).setPage hs.pop hj ht hf
      rw [hsum] at hnext
      rw [hs1, hL1]
      exact hnext
  | none =>
      cases rest with
      | nil =>
          have hhas := Layout.hasTable_of_none (hpde ▸ ht)
          unfold pageCost at henough
          rw [hhas] at henough
          have hlen : 2 ≤ 1 := henough
          lia
      | cons t rest =>
          rcases hsame (newPage_new hs hv hnone ht) with ⟨hs1, hL1⟩
          have htable := (h.pop f).setTable hs.pop hi ht
          have hsound1 := (addTable_new hs.pop hi ht).right
          have hslot : (L.setTable (pdeNr vaddr) t).table (pdeNr vaddr) = some t := if_pos rfl
          have hnext := htable.setPage hsound1 hj hslot hf
          rw [hsum] at hnext
          rw [hs1, hL1]
          exact hnext

theorem UserEntries.growFrom {k n ebrk brk : Nat} {s' : Phys} {b : Bool} (h : UserEntries s L)
    (hs : Sound s free L) (htop : ebrk < kernelBase) (hk : rounds brk ebrk = k) (hn : k ≤ n)
    (henough : growNeed k (brk / 4096) L.hasTable L.hasPage ≤ free.length)
    (hrun : Vm.growFrom (kernelAddr L.dir) ebrk n brk s = Except.ok (b, s')) :
    UserEntries s' (layoutOf s' L.dir) := by
  induction k generalizing s free L n brk with
  | zero =>
      rw [growFrom_stop (rounds_zero hk)] at hrun
      cases hrun
      rw [hs.layout]
      exact h
  | succ k ih =>
      rcases rounds_succ hk with ⟨hlt, hnext⟩
      have hv : brk < kernelBase := by lia
      cases n with
      | zero => cases hn
      | succ n =>
          cases hold : L.page (brk / 4096) with
          | some g =>
              rw [growNeed_some hold, <- next_page] at henough
              rw [growFrom_skip hs hlt hv hold] at hrun
              exact ih h hs hnext (Nat.le_of_succ_le_succ hn) henough hrun
          | none =>
              rw [growNeed_none hold] at henough
              have hcost := pageCost_pos L.hasTable (brk / 4096)
              cases free with
              | nil =>
                  have hlen : ([] : List Nat).length = 0 := rfl
                  lia
              | cons f rest =>
                  rcases newPage hs hv hold (by lia) with ⟨s1, free1, L1, hpage, hlen⟩
                  have hneed : growNeed k ((brk + 4096) / 4096) L1.hasTable L1.hasPage ≤
                      free1.length := by
                    rw [next_page, hpage.tables, hpage.hasPages]
                    lia
                  have hentries := h.mapPage hs hv hold (by lia) hpage
                  rw [growFrom_step (n := n) hs hlt hv hold hpage] at hrun
                  have hlast := ih hentries hpage.grown.sound hnext
                    (Nat.le_of_succ_le_succ hn) hneed hrun
                  rw [hpage.grown.dir] at hlast
                  exact hlast

end Entries

/-!
# Calls
-/

/-- `vm_grow_userheap` as a step of an address space. -/
def sbrk (x : AddressSpace × Phys) (bytesCnt : Int) : Option (AddressSpace × Phys) :=
  match vmGrowUserheap x.1 bytesCnt x.2 with
  | Except.ok ((_, vm), s) => some (vm, s)
  | Except.error _ => none

/-- The address space of the directory in frame `d`, with its heap mapped up to the break. -/
structure Heap (d : Nat) (x : AddressSpace × Phys) (free : List Nat) (L : Layout) : Prop where
  sound : Sound x.2 free L
  dir : L.dir = d
  pgdir : x.1.pgdir = kernelAddr d
  entries : UserEntries x.2 L
  low : userHeapBase ≤ x.1.brk
  high : x.1.brk < userHeapTop
  mapped : forall v, userHeapBase / 4096 ≤ v -> 4096 * v < x.1.brk -> L.page v ≠ none

/-- There are enough free frames for the pages that the call visits. -/
def FindsFrames (d : Nat) (x : AddressSpace × Phys) (bytesCnt : Int) : Prop :=
  exists free, Pool x.2 free ∧
    growNeed (rounds x.1.brk (x.1.brk + bytesCnt.toNat)) (x.1.brk / 4096)
      (layoutOf x.2 d).hasTable (layoutOf x.2 d).hasPage ≤ free.length

/-- The page of the last new byte is visited, or it was there before. -/
def ReachesEnd (d : Nat) (x : AddressSpace × Phys) (bytesCnt : Int) : Prop :=
  0 < bytesCnt.toNat -> x.1.brk + bytesCnt.toNat < userHeapTop ->
    x.1.brk % 4096 + (bytesCnt.toNat - 1) % 4096 < 4096 ∨
      (layoutOf x.2 d).page ((x.1.brk + bytesCnt.toNat - 1) / 4096) ≠ none

/-- What a call owes its caller; `old` is its answer. -/
structure Usable (d : Nat) (x : AddressSpace × Phys) (bytesCnt : Int) (old : Nat)
    (y : AddressSpace × Phys) : Prop where
  refused : old = 0 -> y = x
  answer : old ≠ 0 -> old = x.1.brk
  moved : old ≠ 0 -> y.1.brk = x.1.brk + bytesCnt.toNat ∧ y.1.brk < userHeapTop
  writable : old ≠ 0 -> forall a, userHeapBase ≤ a -> a < y.1.brk -> UserWritable y.2 d (a / 4096)
  others : old ≠ 0 -> forall v, Not (x.1.brk / 4096 ≤ v ∧ 4096 * v < y.1.brk) ->
    (layoutOf y.2 d).page v = (layoutOf x.2 d).page v

def Serves (d : Nat) (x : AddressSpace × Phys) (bytesCnt : Int) : Prop :=
  exists (old : Nat) (y : AddressSpace × Phys),
    vmGrowUserheap x.1 bytesCnt x.2 = Except.ok ((old, y.1), y.2) ∧ Usable d x bytesCnt old y

theorem UserWritable.page {s : Phys} {d v : Nat} (h : UserWritable s d v)
    (hv : v / 1024 < 512) : (layoutOf s d).page v ≠ none := by
  rcases h with ⟨-, t, ht, hbits⟩
  have hpresent : isPresent (s.entry t (v % 1024)) = true := by
    rw [isPresent_iff]
    omega
  intro hnone
  have hpage : (target (s.entry d (v / 1024))).bind (fun u => target (s.entry u (v % 1024))) =
      none := by
    rw [<- hnone]
    exact (if_pos hv).symm
  rw [ht, Option.bind_some] at hpage
  have hfalse := (target_none_iff _).mp hpage
  rw [hpresent] at hfalse
  cases hfalse

section Calls

variable {d : Nat} {x : AddressSpace × Phys} {free : List Nat} {L : Layout} {bytesCnt : Int}

theorem Heap.layout (h : Heap d x free L) : layoutOf x.2 d = L := by
  rw [<- h.dir]
  exact h.sound.layout

theorem Heap.frames (h : Heap d x free L) (hframes : FindsFrames d x bytesCnt) :
    growNeed (rounds x.1.brk (x.1.brk + bytesCnt.toNat)) (x.1.brk / 4096) L.hasTable L.hasPage ≤
      free.length := by
  rcases hframes with ⟨free', hpool, henough⟩
  have heq := hpool.linked.unique h.sound.pool.linked
  rw [h.layout, heq] at henough
  exact henough

/-- A call that the break stays below the end of the heap in. -/
theorem Heap.granted (h : Heap d x free L) (hpos : 0 ≤ bytesCnt) (hmax : bytesCnt < 0x80000000)
    (hframes : FindsFrames d x bytesCnt) (htop : x.1.brk + bytesCnt.toNat < userHeapTop) :
    exists (y : AddressSpace × Phys) (free' : List Nat) (L' : Layout),
      vmGrowUserheap x.1 bytesCnt x.2 = Except.ok ((x.1.brk, y.1), y.2) ∧
      y.1 = { pgdir := kernelAddr d, brk := x.1.brk + bytesCnt.toNat } ∧
      Served x.2 free L (rounds x.1.brk (x.1.brk + bytesCnt.toNat)) (x.1.brk / 4096) y.2 free'
        L' ∧ UserEntries y.2 L' := by
  rcases x with ⟨⟨pgdir, brk⟩, s⟩
  have htopEq : userHeapTop = 2147467264 := rfl
  have hbaseEq : userHeapBase = 134512640 := rfl
  have hlow := h.low
  have hpgdir : pgdir = kernelAddr L.dir := by
    rw [h.dir]
    exact h.pgdir
  dsimp only at htop hlow
  have hok : brk ≠ 0 ∧ 0 ≤ bytesCnt ∧ brk + bytesCnt.toNat < userHeapTop := by
    refine ⟨?_, hpos, htop⟩
    omega
  have hend := userHeapTop_lt htop
  have henough := h.frames hframes
  rcases growFrom_enough h.sound hend rfl (rounds_le brk bytesCnt.toNat) henough with
    ⟨s', free', L', hgrow, hserved⟩
  have hentries := h.entries.growFrom h.sound hend rfl (rounds_le brk bytesCnt.toNat) henough
    hgrow
  have hlayout : layoutOf s' L.dir = L' := by
    rw [<- hserved.grown.dir]
    exact hserved.grown.sound.layout
  rw [hlayout] at hentries
  refine ⟨({ pgdir := kernelAddr d, brk := brk + bytesCnt.toNat }, s'), free', L', ?_, rfl,
    hserved, hentries⟩
  rw [grow_accepted (by omega) hmax hok, hpgdir, hgrow, ok_bind, if_pos rfl, h.dir]

theorem Heap.refused (h : Heap d x free L) (hpos : 0 ≤ bytesCnt)
    (hmax : bytesCnt < 0x80000000) (htop : Not (x.1.brk + bytesCnt.toNat < userHeapTop)) :
    vmGrowUserheap x.1 bytesCnt x.2 = Except.ok ((0, x.1), x.2) := by
  have htopEq : userHeapTop = 2147467264 := rfl
  have hbaseEq : userHeapBase = 134512640 := rfl
  have hlow := h.low
  have hhigh := h.high
  have hout : wrap (x.1.brk + bytesCnt.toNat) < x.1.brk ∨
      wrap (x.1.brk + bytesCnt.toNat) ≥ userHeapTop := by
    rw [wrap_eq]
    omega
  unfold vmGrowUserheap
  dsimp only
  rw [if_neg (by omega), if_neg (by omega), if_pos hout]

theorem Heap.page_iff (h : Heap d x free L) {y : AddressSpace × Phys} {free' : List Nat}
    {L' : Layout} {k : Nat} (hserved : Served x.2 free L k (x.1.brk / 4096) y.2 free' L')
    {v : Nat} (hout : Not (x.1.brk / 4096 ≤ v ∧ v < x.1.brk / 4096 + k)) :
    L'.page v = L.page v := by
  have hold := h.sound
  cases hp : L.page v with
  | some f => exact hserved.grown.keeps (Slot.page v) f hp
  | none =>
      cases hp' : L'.page v with
      | none => rfl
      | some f =>
          rcases (hserved.page v f).mp hp' with hsome | hplan
          · rw [hp] at hsome
            cases hsome
          · exact absurd (plan_range hplan) hout

/-- A call does what it owes exactly where it reaches the page of the last byte. -/
theorem Heap.serves_iff (h : Heap d x free L) (hpos : 0 ≤ bytesCnt)
    (hmax : bytesCnt < 0x80000000) (hframes : FindsFrames d x bytesCnt) :
    Serves d x bytesCnt <-> ReachesEnd d x bytesCnt := by
  have htopEq : userHeapTop = 2147467264 := rfl
  have hbaseEq : userHeapBase = 134512640 := rfl
  have hlow := h.low
  by_cases htop : x.1.brk + bytesCnt.toNat < userHeapTop
  · rcases h.granted hpos hmax hframes htop with ⟨y, free', L', hrun, hy, hserved, hentries⟩
    have hsound' := hserved.grown.sound
    have hdir' : L'.dir = d := hserved.grown.dir.trans h.dir
    have hlayout' : layoutOf y.2 d = L' := by
      rw [<- hdir']
      exact hsound'.layout
    have hbrk : y.1.brk = x.1.brk + bytesCnt.toNat := by rw [hy]
    have hrounds : rounds x.1.brk (x.1.brk + bytesCnt.toNat) = (bytesCnt.toNat + 4095) / 4096 := by
      unfold rounds
      rw [Nat.add_sub_cancel_left]
    rw [hrounds] at hserved
    constructor
    · intro hex hbytes _
      rcases hex with ⟨old, z, hrun', husable⟩
      have heq := Except.ok.inj (hrun.symm.trans hrun')
      have hold : x.1.brk = old := (Prod.mk.inj (Prod.mk.inj heq).left).left
      have hstate : y.2 = z.2 := (Prod.mk.inj heq).right
      have hspace : y.1 = z.1 := (Prod.mk.inj (Prod.mk.inj heq).left).right
      by_cases hfits : x.1.brk % 4096 + (bytesCnt.toNat - 1) % 4096 < 4096
      · exact Or.inl hfits
      · right
        have hwritable := husable.writable (by omega) (x.1.brk + bytesCnt.toNat - 1) (by omega)
          (by rw [<- hspace, hbrk]; omega)
        rw [<- hstate] at hwritable
        have hpage := hwritable.page (by omega)
        rw [hlayout', h.page_iff hserved (by omega)] at hpage
        rw [h.layout]
        exact hpage
    · intro hreach
      refine ⟨x.1.brk, y, hrun, ?_⟩
      constructor
      · intro hzero
        omega
      · exact fun _ => rfl
      · exact fun _ => ⟨hbrk, by rw [hbrk]; exact htop⟩
      · intro _ a hbase ha
        rw [hbrk] at ha
        have hpage : L'.page (a / 4096) ≠ none := by
          by_cases hvisited : x.1.brk / 4096 ≤ a / 4096 ∧
              a / 4096 < x.1.brk / 4096 + (bytesCnt.toNat + 4095) / 4096
          · exact hserved.present _ hvisited.left hvisited.right
          · rw [h.page_iff hserved hvisited]
            by_cases hold : 4096 * (a / 4096) < x.1.brk
            · exact h.mapped _ (by omega) hold
            · have hlast : a / 4096 = (x.1.brk + bytesCnt.toNat - 1) / 4096 := by omega
              rcases hreach (by omega) htop with hfits | hthere
              · omega
              · rw [hlast, <- h.layout]
                exact hthere
        rw [<- hdir']
        exact hentries.writable hsound' hpage
      · intro _ v hout
        rw [hlayout', h.layout]
        apply h.page_iff hserved
        rw [hbrk] at hout
        omega
  · constructor
    · intro _ _ hin
      exact absurd hin htop
    · intro _
      refine ⟨0, x, h.refused hpos hmax htop, ?_⟩
      constructor
      · exact fun _ => rfl
      · exact fun hne => absurd rfl hne
      · exact fun hne => absurd rfl hne
      · exact fun hne => absurd rfl hne
      · exact fun hne => absurd rfl hne

/-- A call that reaches the last page keeps the heap mapped. -/
theorem Heap.step (h : Heap d x free L) (hpos : 0 ≤ bytesCnt) (hmax : bytesCnt < 0x80000000)
    (hframes : FindsFrames d x bytesCnt) (hreach : ReachesEnd d x bytesCnt)
    {y : AddressSpace × Phys} (hstep : sbrk x bytesCnt = some y) :
    exists free' L', Heap d y free' L' := by
  unfold sbrk at hstep
  by_cases htop : x.1.brk + bytesCnt.toNat < userHeapTop
  · rcases h.granted hpos hmax hframes htop with ⟨z, free', L', hrun, hz, hserved, hentries⟩
    rw [hrun] at hstep
    have hzy : z = y := Option.some.inj hstep
    have hdir' : L'.dir = d := hserved.grown.dir.trans h.dir
    have hbrk : z.1.brk = x.1.brk + bytesCnt.toNat := by rw [hz]
    have hlow := h.low
    rcases (h.serves_iff hpos hmax hframes).mpr hreach with ⟨old, w, hrun', husable⟩
    have heq := Except.ok.inj (hrun.symm.trans hrun')
    have hold : x.1.brk = old := (Prod.mk.inj (Prod.mk.inj heq).left).left
    have hstate : z.2 = w.2 := (Prod.mk.inj heq).right
    have hspace : z.1 = w.1 := (Prod.mk.inj (Prod.mk.inj heq).left).right
    have hbaseEq : userHeapBase = 134512640 := rfl
    have htopEq : userHeapTop = 2147467264 := rfl
    rw [<- hzy]
    refine ⟨free', L', hserved.grown.sound, hdir', by rw [hz], hentries, by omega,
      by rw [hbrk]; exact htop, ?_⟩
    intro v hbase hv
    have hwritable := husable.writable (by omega) (4096 * v) (by omega)
      (by rw [<- hspace]; exact hv)
    rw [<- hstate, Nat.mul_div_cancel_left v (by decide)] at hwritable
    have hpage := hwritable.page (by omega)
    rw [<- hdir', hserved.grown.sound.layout] at hpage
    exact hpage
  · rw [h.refused hpos hmax htop] at hstep
    have hxy : x = y := Option.some.inj hstep
    rw [<- hxy]
    exact ⟨free, L, h⟩

end Calls

/--
In every run of calls that reach the page of their last byte the next call does what it owes
exactly where it reaches that page as well.
-/
theorem sbrk_serves_iff {d : Nat} {start x : AddressSpace × Phys} {free : List Nat} {L : Layout}
    (hstart : Heap d start free L)
    (hrun : Reaches sbrk (fun y cnt => 0 ≤ cnt ∧ cnt < 0x80000000 ∧ FindsFrames d y cnt ∧
      ReachesEnd d y cnt) start x)
    (bytesCnt : Int) (hpos : 0 ≤ bytesCnt) (hmax : bytesCnt < 0x80000000)
    (hframes : FindsFrames d x bytesCnt) :
    Serves d x bytesCnt <-> ReachesEnd d x bytesCnt := by
  have hheap : exists free L, Heap d x free L := by
    apply hrun.invariant (P := fun y => exists free L, Heap d y free L) ⟨free, L, hstart⟩
    intro y z cnt hex hall hstep
    rcases hex with ⟨free1, L1, hy⟩
    rcases hall with ⟨hcnt, hcntMax, hfound, hreach⟩
    exact hy.step hcnt hcntMax hfound hreach hstep
  rcases hheap with ⟨free', L', h⟩
  exact h.serves_iff hpos hmax hframes

/-- An address space without user pages and two free frames. -/
def linkedHeap : AddressSpace × Phys :=
  ({ pgdir := kernelAddr 1024, brk := userHeapBase }, linkedPhys)

theorem linkedHeap_sound : Heap 1024 linkedHeap [1025, 1026] bareLayout where
  sound := linkedSound
  dir := rfl
  pgdir := rfl
  entries := ⟨fun _ h => absurd rfl h, fun _ _ _ h => nomatch h⟩
  low := Nat.le_refl _
  high := by decide
  mapped v hbase hv := by
    have hlt : 4096 * v < userHeapBase := hv
    have hbaseEq : userHeapBase = 134512640 := rfl
    omega

theorem linkedHeap_frames : FindsFrames 1024 linkedHeap 2048 := by
  refine ⟨[1025, 1026], linkedSound.pool, ?_⟩
  rw [linkedHeap_sound.layout]
  decide

theorem linkedHeap_reaches : ReachesEnd 1024 linkedHeap 2048 := by
  intro _ _
  left
  decide

theorem linkedHeap_grown :
    exists y free' L', sbrk linkedHeap 2048 = some y ∧ Heap 1024 y free' L' ∧
      y.1.brk = userHeapBase + 2048 ∧ L'.page (userHeapBase / 4096) ≠ none ∧
      L'.page (userHeapBase / 4096 + 1) = none := by
  have hframes := linkedHeap_frames
  rcases linkedHeap_sound.granted (by decide) (by decide) hframes (by decide) with
    ⟨y, free1, L1, hrun, hy, hserved, -⟩
  have hbrk : y.1.brk = userHeapBase + 2048 := by
    rw [hy]
    rfl
  have hstep : sbrk linkedHeap 2048 = some y := by
    unfold sbrk
    rw [hrun]
  rcases linkedHeap_sound.step (by decide) (by decide) hframes linkedHeap_reaches hstep with
    ⟨free2, L2, hheap⟩
  have hlayout : L2 = L1 := by
    rw [<- hheap.layout]
    have hdir : L1.dir = 1024 := hserved.grown.dir
    rw [<- hdir]
    exact hserved.grown.sound.layout
  refine ⟨y, free2, L2, hstep, hheap, hbrk, ?_, ?_⟩
  · rw [hlayout]
    exact hserved.present _ (by decide) (by decide)
  · rw [hlayout]
    exact linkedHeap_sound.page_iff hserved (by decide)

/-- The next call visits one page, which is there already. -/
theorem linkedHeap_finds {y : AddressSpace × Phys} {free : List Nat} {L : Layout}
    (h : Heap 1024 y free L) (hbrk : y.1.brk = userHeapBase + 2048)
    (hpage : L.page (userHeapBase / 4096) ≠ none) : FindsFrames 1024 y 4096 := by
  refine ⟨free, h.sound.pool, ?_⟩
  have hrounds : rounds (userHeapBase + 2048) (userHeapBase + 2048 + (4096 : Int).toNat) = 1 := by
    decide
  have hdiv : (userHeapBase + 2048) / 4096 = userHeapBase / 4096 := by decide
  rw [h.layout, hbrk, hrounds, hdiv]
  cases hp : L.page (userHeapBase / 4096) with
  | none => exact absurd hp hpage
  | some f =>
      rw [growNeed_some hp]
      exact Nat.zero_le _

theorem sbrk_serves_iff_linkedHeap :
    exists y, sbrk linkedHeap 2048 = some y ∧
      (Serves 1024 y 4096 <-> ReachesEnd 1024 y 4096) := by
  rcases linkedHeap_grown with ⟨y, free, L, hstep, hheap, hbrk, hpage, -⟩
  refine ⟨y, hstep, ?_⟩
  have hreaches : Reaches sbrk (fun z cnt => 0 ≤ cnt ∧ cnt < 0x80000000 ∧ FindsFrames 1024 z cnt ∧
      ReachesEnd 1024 z cnt) linkedHeap y :=
    Reaches.refl.next ⟨by decide, by decide, linkedHeap_frames, linkedHeap_reaches⟩ hstep
  exact sbrk_serves_iff linkedHeap_sound hreaches 4096 (by decide) (by decide)
    (linkedHeap_finds hheap hbrk hpage)

/-- Behind half a page, a page more leaves the page of the new break out. -/
theorem sbrk_leaves_hole :
    exists y, sbrk linkedHeap 2048 = some y ∧ FindsFrames 1024 y 4096 ∧
      Not (Serves 1024 y 4096) := by
  rcases linkedHeap_grown with ⟨y, free, L, hstep, hheap, hbrk, hpage, hnone⟩
  have hframes := linkedHeap_finds hheap hbrk hpage
  refine ⟨y, hstep, hframes, ?_⟩
  intro hserves
  have hreach := (hheap.serves_iff (by decide) (by decide) hframes).mp hserves
  have hdiv : (userHeapBase + 2048 + (4096 : Int).toNat - 1) / 4096 = userHeapBase / 4096 + 1 := by
    decide
  rcases hreach (by decide) (by rw [hbrk]; decide) with hfits | hthere
  · rw [hbrk] at hfits
    exact absurd hfits (by decide)
  · rw [hheap.layout, hbrk, hdiv] at hthere
    exact hthere hnone

end Vm
end Kernel
end NicoOS
