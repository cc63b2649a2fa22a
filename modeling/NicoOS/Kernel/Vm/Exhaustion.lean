import NicoOS.Kernel.Vm.CopyDir

/-!
# Requests that find the free list empty

`palloc` answers the physical address of `NULL` for an empty list, and no caller takes
that for a failure.  A request is served or refused as it should exactly where the list
holds the frames that it needs.
-/

namespace NicoOS
namespace Kernel
namespace Vm

open Lib

/-!
# Requests
-/

inductive Request where
  | mapPage (vaddr paddr attr : Nat)
  | valloc (vaddr pgCnt : Nat)
  | copy
  | grow (brk : Nat) (bytesCnt : Int)
  deriving DecidableEq

namespace Request

/-- The request on a page directory; the answer tells whether it was served. -/
def run (pgdir : Nat) : Request -> Phys -> Run (Bool × Phys)
  | mapPage vaddr paddr attr, s => Vm.mapPage pgdir vaddr paddr attr s
  | valloc vaddr pgCnt, s => pgdirValloc pgdir vaddr pgCnt pgUser s
  | copy, s => do
      let (cp, s) <- pgdirCopy pgdir s
      Except.ok (decide (cp ≠ 0), s)
  | grow brk bytesCnt, s => do
      let ((old, _), s) <- vmGrowUserheap { pgdir := pgdir, brk := brk } bytesCnt s
      Except.ok (decide (old ≠ 0), s)

/-- User addresses, and machine words for a break. -/
def Valid : Request -> Prop
  | mapPage vaddr _ _ => vaddr < kernelBase
  | valloc vaddr pgCnt => vaddr + 4096 * pgCnt ≤ kernelBase
  | copy => True
  | grow brk bytesCnt => brk < 0x100000000 ∧ bytesCnt < 0x80000000

def need (tables pages : Nat -> Bool) : Request -> Nat
  | mapPage vaddr paddr _ => if paddr % pgSize = 0 ∧ tables (pdeNr vaddr) = false then 1 else 0
  | valloc vaddr pgCnt => vallocNeed pgCnt (vaddr / 4096) tables pages
  | copy => copyNeed tables pages
  | grow brk bytesCnt =>
      if brk ≠ 0 ∧ 0 ≤ bytesCnt ∧ brk + bytesCnt.toNat < userHeapTop then
        growNeed (rounds brk (brk + bytesCnt.toNat)) (brk / 4096) tables pages
      else
        0

end Request

def final {α : Type} : Run (α × Phys) -> Phys
  | Except.ok a => a.2
  | Except.error e => e.2

/--
The same frames are free, every address space has the frames that it had, and no entry
of one points at a frame that does not exist.
-/
structure RolledBack (s : Phys) (free : List Nat) (s' : Phys) : Prop where
  sameFree : exists free', Pool s' free' ∧ forall f, f ∈ free' <-> f ∈ free
  mapping : forall M, Sound s free M -> layoutOf s' M.dir = M
  exist : forall M x f, Sound s free M -> (layoutOf s' M.dir).frame x = some f -> InPool f

/-- A request that finds the list empty is refused and leaves everything as it was. -/
def Reported (s : Phys) (free : List Nat) (r : Run (Bool × Phys)) : Prop :=
  (final r).exhausted = true -> exists s', r = Except.ok (false, s') ∧ RolledBack s free s'

section Requests

variable {s : Phys} {free : List Nat} {L : Layout}

theorem reported_of_fresh {r : Run (Bool × Phys)} (h : (final r).exhausted = false) :
    Reported s free r := by
  intro hex
  rw [h] at hex
  cases hex

theorem not_reported_of_dry {r : Run (Bool × Phys)} (h : EndsDry r) : Not (Reported s free r) := by
  intro hreported
  cases r with
  | ok a =>
      rcases h with ⟨hserved, hdry⟩
      rcases hreported hdry.exhausted with ⟨s', hrun, -⟩
      cases hrun
      cases hserved
  | error e =>
      rcases hreported (Dry.exhausted h) with ⟨s', hrun, -⟩
      cases hrun

theorem not_reported_of_error {r : Run (Bool × Phys)} {e : Stop × Phys} (hr : r = Except.error e)
    (hex : e.2.exhausted = true) : Not (Reported s free r) := by
  intro hreported
  rw [hr] at hreported
  rcases hreported hex with ⟨s', hrun, -⟩
  cases hrun

theorem need_mapPage (tables pages : Nat -> Bool) (vaddr paddr attr : Nat) :
    (Request.mapPage vaddr paddr attr).need tables pages =
      if paddr % pgSize = 0 ∧ tables (pdeNr vaddr) = false then 1 else 0 := rfl

theorem need_grow (tables pages : Nat -> Bool) (brk : Nat) (bytesCnt : Int) :
    (Request.grow brk bytesCnt).need tables pages =
      if brk ≠ 0 ∧ 0 ≤ bytesCnt ∧ brk + bytesCnt.toNat < userHeapTop then
        growNeed (rounds brk (brk + bytesCnt.toNat)) (brk / 4096) tables pages
      else
        0 := rfl

theorem copy_run (pgdir : Nat) (s : Phys) :
    Request.copy.run pgdir s =
      (pgdirCopy pgdir s >>= fun a => Except.ok (decide (a.1 ≠ 0), a.2)) := rfl

theorem grow_run (pgdir brk : Nat) (bytesCnt : Int) (s : Phys) :
    (Request.grow brk bytesCnt).run pgdir s =
      (vmGrowUserheap { pgdir := pgdir, brk := brk } bytesCnt s >>= fun a =>
        Except.ok (decide (a.1.1 ≠ 0), a.2)) := rfl

/-!
# `map_page`
-/

theorem pageAt_exhausted (vaddr : Nat) (s : Phys) :
    Meets (fun _ => True) (fun e => e.2.exhausted = s.exhausted) (pageAt vaddr s) := by
  unfold pageAt
  split
  · trivial
  · rfl

theorem tableAt_exhausted (d nr : Nat) (s : Phys) :
    Meets (fun _ => True) (fun e => e.2.exhausted = s.exhausted) (tableAt d nr s) := by
  unfold tableAt
  exact pageAt_exhausted _ s

theorem final_of_meets {α : Type} {r : Run (α × Phys)} {b : Bool}
    (h : Meets (fun a => a.2.exhausted = b) (fun e => e.2.exhausted = b) r) :
    (final r).exhausted = b := by
  cases r with
  | ok a => exact h
  | error e => exact h

theorem mapPage_exhausted {pgdir vaddr paddr attr d : Nat} {s1 : Phys}
    (hdir : pageAt pgdir s = Except.ok d)
    (hready : addTable d (pdeNr vaddr) s = Except.ok (true, s1)) :
    (final (mapPage pgdir vaddr paddr attr s)).exhausted = true ->
      s.exhausted = true ∨ s1.exhausted = true := by
  intro hex
  unfold mapPage at hex
  split at hex
  · rw [hdir, ok_bind, hready, ok_bind] at hex
    dsimp only at hex
    rw [if_pos rfl] at hex
    right
    rw [<- hex]
    symm
    apply final_of_meets
    refine (tableAt_exhausted d (pdeNr vaddr) s1).bind (fun f _ => ?_)
    split
    · rfl
    · rfl
  · exact Or.inl hex

theorem mapPage_reported {vaddr paddr attr : Nat} (h : Sound s free L)
    (hfresh : s.exhausted = false)
    (hv : vaddr < kernelBase)
    (henough : (Request.mapPage vaddr paddr attr).need L.hasTable L.hasPage ≤ free.length) :
    Reported s free (mapPage (kernelAddr L.dir) vaddr paddr attr s) := by
  rcases vaddr_parts hv with ⟨-, -, hi, -⟩
  have hdir := pageAt_kernelAddr h.dir_inPool s
  have hclosed : forall s1, addTable L.dir (pdeNr vaddr) s = Except.ok (true, s1) ->
      s1.exhausted = false -> Reported s free (mapPage (kernelAddr L.dir) vaddr paddr attr s) := by
    intro s1 hready h1 hex
    rcases mapPage_exhausted hdir hready hex with hold | hnew
    · rw [hfresh] at hold
      cases hold
    · rw [h1] at hnew
      cases hnew
  cases ht : L.table (pdeNr vaddr) with
  | some t => exact hclosed s (addTable_ready h ht) hfresh
  | none =>
      by_cases halign : paddr % pgSize = 0
      · cases free with
        | nil =>
            have hcond : paddr % pgSize = 0 ∧ L.hasTable (pdeNr vaddr) = false :=
              ⟨halign, Layout.hasTable_of_none ht⟩
            rw [need_mapPage, if_pos hcond] at henough
            cases henough
        | cons t rest => exact hclosed _ (addTable_new h hi ht).left hfresh
      · apply reported_of_fresh
        unfold mapPage
        rw [if_neg halign]
        exact hfresh

theorem mapPage_not_reported {vaddr paddr attr : Nat} (h : Sound s free L)
    (hv : vaddr < kernelBase)
    (hshort : free.length < (Request.mapPage vaddr paddr attr).need L.hasTable L.hasPage) :
    Not (Reported s free (mapPage (kernelAddr L.dir) vaddr paddr attr s)) := by
  rcases vaddr_parts hv with ⟨-, -, hi, -⟩
  rw [need_mapPage] at hshort
  split at hshort
  · rename_i hcond
    rcases hcond with ⟨halign, hnone⟩
    have ht : L.table (pdeNr vaddr) = none := by
      cases hsome : L.table (pdeNr vaddr) with
      | none => rfl
      | some t =>
          rw [Layout.hasTable_of_some hsome] at hnone
          cases hnone
    cases free with
    | nil =>
        apply not_reported_of_error (e := (Stop.fault, { s with exhausted := true })) _ rfl
        unfold mapPage
        rw [if_pos halign, pageAt_kernelAddr h.dir_inPool, ok_bind, addTable_empty h hi ht,
          error_bind]
    | cons t rest =>
        rw [List.length_cons] at hshort
        lia
  · cases hshort

/-!
# `pgdir_valloc`, `pgdir_copy` and `vm_grow_userheap`
-/

theorem valloc_reported {vaddr pgCnt : Nat} (h : Sound s free L) (hfresh : s.exhausted = false)
    (hrange : vaddr + 4096 * pgCnt ≤ kernelBase)
    (henough : vallocNeed pgCnt (vaddr / 4096) L.hasTable L.hasPage ≤ free.length) :
    Reported s free (pgdirValloc (kernelAddr L.dir) vaddr pgCnt pgUser s) := by
  apply reported_of_fresh
  unfold pgdirValloc
  rcases vallocFrom_enough 0 h hrange henough with
    ⟨s', free', L', hrun, hserved, -⟩ | ⟨-, s', hrun, hex⟩
  · rw [hrun]
    exact hserved.grown.exhausted.trans hfresh
  · rw [hrun]
    exact hex.trans hfresh

theorem copy_reported (h : Sound s free L) (hfresh : s.exhausted = false)
    (henough : copyNeed L.hasTable L.hasPage ≤ free.length) :
    Reported s free (Request.copy.run (kernelAddr L.dir) s) := by
  apply reported_of_fresh
  rcases pgdirCopy_enough h henough with ⟨c, s', free', C, hrun, -, hcopy⟩
  rw [copy_run, hrun, ok_bind]
  exact hcopy.exhausted.trans hfresh

theorem copy_not_reported (h : Sound s free L)
    (hshort : free.length < copyNeed L.hasTable L.hasPage) :
    Not (Reported s free (Request.copy.run (kernelAddr L.dir) s)) := by
  rcases pgdirCopy_short h hshort with ⟨s', hrun, hex⟩
  apply not_reported_of_error (e := (Stop.fault, s')) _ hex
  rw [copy_run, hrun, error_bind]

theorem grow_accepted {pgdir brk : Nat} {bytesCnt : Int} (hbrk : brk < 0x100000000)
    (hbytes : bytesCnt < 0x80000000)
    (hok : brk ≠ 0 ∧ 0 ≤ bytesCnt ∧ brk + bytesCnt.toNat < userHeapTop) :
    vmGrowUserheap { pgdir := pgdir, brk := brk } bytesCnt s =
      (growFrom pgdir (brk + bytesCnt.toNat) (bytesCnt.toNat / pgSize + 1) brk s >>= fun a =>
        if a.1 = true then
          Except.ok ((brk, { pgdir := pgdir, brk := brk + bytesCnt.toNat }), a.2)
        else Except.ok ((0, { pgdir := pgdir, brk := brk }), a.2)) := by
  rcases hok with ⟨hnull, hpos, htop⟩
  have htopEq : userHeapTop = 2147467264 := rfl
  have hwrap : wrap (brk + bytesCnt.toNat) = brk + bytesCnt.toNat := by
    rw [wrap_eq]
    omega
  have hinside : Not (brk + bytesCnt.toNat < brk ∨ brk + bytesCnt.toNat ≥ userHeapTop) := by
    omega
  unfold vmGrowUserheap
  dsimp only
  rw [if_neg hnull, if_neg (by omega), hwrap, if_neg hinside]

/-- `vm_grow_userheap` of a request that it refuses at once. -/
theorem grow_refused {pgdir brk : Nat} {bytesCnt : Int} (hbrk : brk < 0x100000000)
    (hbytes : bytesCnt < 0x80000000)
    (hno : Not (brk ≠ 0 ∧ 0 ≤ bytesCnt ∧ brk + bytesCnt.toNat < userHeapTop)) :
    (final (vmGrowUserheap { pgdir := pgdir, brk := brk } bytesCnt s)).exhausted =
      s.exhausted := by
  have htopEq : userHeapTop = 2147467264 := rfl
  unfold vmGrowUserheap
  dsimp only
  by_cases hnull : brk = 0
  · rw [if_pos hnull]
    rfl
  · rw [if_neg hnull]
    by_cases hneg : bytesCnt < 0
    · rw [if_pos hneg]
      rfl
    · have hout : wrap (brk + bytesCnt.toNat) < brk ∨
          wrap (brk + bytesCnt.toNat) ≥ userHeapTop := by
        rw [wrap_eq]
        omega
      rw [if_neg hneg, if_pos hout]
      rfl

theorem rounds_le (brk n : Nat) : rounds brk (brk + n) ≤ n / pgSize + 1 := by
  unfold rounds pgSize
  omega

theorem userHeapTop_lt {n : Nat} (h : n < userHeapTop) : n < kernelBase := by
  have htopEq : userHeapTop = 2147467264 := rfl
  rw [kernelBase_eq]
  omega

theorem final_answer {α : Type} (r : Run (α × Phys)) (f : α × Phys -> Bool) :
    final (r >>= fun a => Except.ok (f a, a.2)) = final r := by
  cases r with
  | ok a => rfl
  | error e => rfl

theorem grow_reported {brk : Nat} {bytesCnt : Int} (h : Sound s free L)
    (hfresh : s.exhausted = false) (hvalid : (Request.grow brk bytesCnt).Valid)
    (henough : (Request.grow brk bytesCnt).need L.hasTable L.hasPage ≤ free.length) :
    Reported s free ((Request.grow brk bytesCnt).run (kernelAddr L.dir) s) := by
  rcases hvalid with ⟨hbrk, hbytes⟩
  apply reported_of_fresh
  rw [grow_run, final_answer]
  rw [need_grow] at henough
  by_cases hok : brk ≠ 0 ∧ 0 ≤ bytesCnt ∧ brk + bytesCnt.toNat < userHeapTop
  · rw [if_pos hok] at henough
    rcases growFrom_enough h (userHeapTop_lt hok.right.right) rfl
      (rounds_le brk bytesCnt.toNat) henough with
      ⟨s', free', L', hrun, hserved⟩
    rw [grow_accepted hbrk hbytes hok, hrun, ok_bind, if_pos rfl]
    exact hserved.grown.exhausted.trans hfresh
  · rw [grow_refused hbrk hbytes hok]
    exact hfresh

theorem grow_not_reported {brk : Nat} {bytesCnt : Int} (h : Sound s free L)
    (hvalid : (Request.grow brk bytesCnt).Valid)
    (hshort : free.length < (Request.grow brk bytesCnt).need L.hasTable L.hasPage) :
    Not (Reported s free ((Request.grow brk bytesCnt).run (kernelAddr L.dir) s)) := by
  rcases hvalid with ⟨hbrk, hbytes⟩
  rw [need_grow] at hshort
  by_cases hok : brk ≠ 0 ∧ 0 ≤ bytesCnt ∧ brk + bytesCnt.toNat < userHeapTop
  · rw [if_pos hok] at hshort
    apply not_reported_of_dry
    have hdry := growFrom_short h (userHeapTop_lt hok.right.right) rfl
      (rounds_le brk bytesCnt.toNat) hshort
    rw [grow_run, grow_accepted hbrk hbytes hok]
    cases hrun : growFrom (kernelAddr L.dir) (brk + bytesCnt.toNat)
        (bytesCnt.toNat / pgSize + 1) brk s with
    | error e =>
        rw [hrun] at hdry
        exact hdry
    | ok a =>
        rw [hrun] at hdry
        rcases hdry with ⟨hserved, hdry⟩
        rw [ok_bind, if_pos hserved, ok_bind]
        exact ⟨decide_eq_true hok.left, hdry⟩
  · rw [if_neg hok] at hshort
    cases hshort

/-!
# All requests
-/

theorem reported_of_enough {q : Request} (h : Sound s free L) (hfresh : s.exhausted = false)
    (hvalid : q.Valid) (henough : q.need L.hasTable L.hasPage ≤ free.length) :
    Reported s free (q.run (kernelAddr L.dir) s) := by
  cases q with
  | mapPage vaddr paddr attr => exact mapPage_reported h hfresh hvalid henough
  | valloc vaddr pgCnt => exact valloc_reported h hfresh hvalid henough
  | copy => exact copy_reported h hfresh henough
  | grow brk bytesCnt => exact grow_reported h hfresh hvalid henough

theorem not_reported_of_short {q : Request} (h : Sound s free L) (hvalid : q.Valid)
    (hshort : free.length < q.need L.hasTable L.hasPage) :
    Not (Reported s free (q.run (kernelAddr L.dir) s)) := by
  cases q with
  | mapPage vaddr paddr attr => exact mapPage_not_reported h hvalid hshort
  | valloc vaddr pgCnt => exact not_reported_of_dry (vallocFrom_short 0 h hvalid hshort)
  | copy => exact copy_not_reported h hshort
  | grow brk bytesCnt => exact grow_not_reported h hvalid hshort

end Requests

/-- Exhaustion is reported and rolled back exactly where there is none. -/
theorem exhaustion_reported_iff (s : Phys) (free : List Nat) (L : Layout) (q : Request)
    (h : Sound s free L) (hfresh : s.exhausted = false) (hvalid : q.Valid) :
    Reported s free (q.run (kernelAddr L.dir) s) <-> q.need L.hasTable L.hasPage ≤ free.length := by
  constructor
  · intro hreported
    by_cases henough : q.need L.hasTable L.hasPage ≤ free.length
    · exact henough
    · exact absurd hreported (not_reported_of_short h hvalid (Nat.lt_of_not_le henough))
  · exact reported_of_enough h hfresh hvalid

def bareLayout : Layout := ⟨1024, fun _ => none, fun _ => none⟩

/-- A directory that is 0 is an address space without tables. -/
theorem bare_sound {free : List Nat} (hnodup : free.Nodup)
    (hpool : forall f, f ∈ free -> InPool f ∧ f ≠ 1024) :
    Sound (freeFrames free) free bareLayout where
  pool := freeFrames_pool hnodup (fun f hf => (hpool f hf).left)
  layout := by
    apply layoutOf_eq (L := bareLayout)
    · intro i _
      have hzero : (freeFrames free).entry 1024 i = 0 := by
        unfold Phys.entry
        rw [freeFrames_of_used (fun hmem => (hpool 1024 hmem).right rfl)]
        rfl
      rw [show bareLayout.dir = 1024 from rfl, hzero]
      rfl
    · intro i t _ ht
      cases ht
    · exact fun _ _ _ _ _ => rfl
    · exact fun _ _ => rfl
    · exact fun _ _ => rfl
  kernel i _ _ := by
    unfold Phys.entry
    have hkernel : Not (kpgdirFrame ∈ free) := by
      intro hmem
      exact absurd (hpool kpgdirFrame hmem).left (by decide)
    rw [show bareLayout.dir = 1024 from rfl, freeFrames_of_used hkernel,
      freeFrames_of_used (fun hmem => (hpool 1024 hmem).right rfl)]
  inPool x f hx := by
    cases x with
    | dir =>
        cases hx
        exact ⟨by decide, by decide⟩
    | table i => cases hx
    | page v => cases hx
  used x f hx := by
    cases x with
    | dir =>
        cases hx
        exact fun hmem => (hpool 1024 hmem).right rfl
    | table i => cases hx
    | page v => cases hx
  own x y f hx hy := by
    cases x with
    | dir =>
        cases y with
        | dir => rfl
        | table i => cases hy
        | page v => cases hy
    | table i => cases hx
    | page v => cases hx

/-- Two free frames; the first one holds the link to the second. -/
def linkedPhys : Phys := freeFrames [1025, 1026]

theorem linkedSound : Sound linkedPhys [1025, 1026] bareLayout :=
  bare_sound (by decide) (by decide)

theorem bareSound : Sound (freeFrames [1025]) [1025] bareLayout :=
  bare_sound (by decide) (by decide)

/-- The last free frame serves as the table behind `USER_BASE`. -/
def lastTable : Phys := withTable (freeFrames [1025]) 1024 16 1025

theorem lastTable_sound : Sound lastTable [] (bareLayout.setTable 16 1025) :=
  (addTable_new bareSound (by decide) rfl).right

theorem exhaustion_reported_iff_lastTable :
    Reported lastTable [] (Request.copy.run (kernelAddr 1024) lastTable) <->
      Request.copy.need (bareLayout.setTable 16 1025).hasTable
        (bareLayout.setTable 16 1025).hasPage ≤ 0 :=
  exhaustion_reported_iff lastTable [] (bareLayout.setTable 16 1025) Request.copy lastTable_sound
    rfl trivial

/-- With no free frame `pgdir_valloc` maps a page to a frame that does not exist. -/
theorem valloc_maps_missing_frame :
    Sound lastTable [] (bareLayout.setTable 16 1025) ∧
      (exists s', pgdirValloc (kernelAddr 1024) userBase 1 pgUser lastTable =
        Except.ok (true, s') ∧ s'.entry 1025 (pteNr userBase) = 0x80000007) ∧
      Not (Reported lastTable []
        ((Request.valloc userBase 1).run (kernelAddr 1024) lastTable)) := by
  let s : Phys := { lastTable with exhausted := true }
  have hdrained : Sound s [] (bareLayout.setTable 16 1025) := lastTable_sound.drained
  have hentry : link 524288 = 0x80000007 := by decide
  have htable : (bareLayout.setTable 16 1025).table (pdeNr userBase) = some 1025 := rfl
  have huser : userBase < kernelBase := by decide
  have hmap := mapPage_of_table (f := 524288) hdrained huser
    (addTable_ready hdrained htable) hdrained rfl htable rfl
  rw [hentry] at hmap
  refine ⟨lastTable_sound, ⟨s.setEntry 1025 (pteNr userBase) 0x80000007, ?_,
    entry_setEntry_self (by decide)⟩, ?_⟩
  · have hanswer : kernelBase ≠ 0 := by decide
    unfold pgdirValloc vallocFrom
    rw [lastTable_sound.pool.palloc_nil, ok_bind]
    dsimp only
    rw [if_neg hanswer, show kernelBase = 4096 * 524288 from rfl]
    have hdir : (bareLayout.setTable 16 1025).dir = 1024 := rfl
    rw [hdir] at hmap
    rw [hmap, ok_bind]
    rfl
  · have hvalid : userBase + 4096 * 1 ≤ kernelBase := by decide
    exact not_reported_of_short (q := Request.valloc userBase 1) lastTable_sound hvalid (by decide)

end Vm
end Kernel
end NicoOS
