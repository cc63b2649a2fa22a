import NicoOS.Kernel.Vm.Frames

/-!
# New tables and new pages

The two writes of `map_page`: an empty table behind a directory entry and a frame
behind a table entry.
-/

namespace NicoOS
namespace Kernel
namespace Vm

open Lib

/-!
# Entries after writes
-/

section Entries

variable {s : Phys}

theorem entry_setEntry (f nr g k : Nat) {value : Nat} (hvalue : value < 0x100000000) :
    (s.setEntry f nr value).entry g k = if g = f ∧ k = nr then value else s.entry g k := by
  by_cases hg : g = f
  · cases hg
    by_cases hk : k = nr
    · rw [if_pos ⟨rfl, hk⟩, hk]
      exact entry_setEntry_self hvalue
    · rw [if_neg (fun h => hk h.right)]
      exact entry_setEntry_of_ne hk
  · rw [if_neg (fun h => hg h.left)]
    exact entry_congr (setEntry_of_ne hg) k

theorem entry_clear_eq (f g k : Nat) :
    (s.clear f).entry g k = if g = f then 0 else s.entry g k := by
  by_cases hg : g = f
  · rw [if_pos hg, hg]
    exact entry_clear f k
  · rw [if_neg hg]
    exact entry_congr (clear_of_ne hg) k

end Entries

/-- The entry that points a directory at a table or a table at a page. -/
def link (f : Nat) : Nat := 4096 * f ||| pgUser ||| pgPresent

theorem link_lt {f : Nat} (h : InPool f) : link f < 0x100000000 := make_lt h

theorem target_link {f : Nat} (h : InPool f) : target (link f) = some f := target_make h

/-!
# Layouts
-/

namespace Layout

def setTable (L : Layout) (i t : Nat) : Layout :=
  { L with table := fun k => if k = i then some t else L.table k }

def setPage (L : Layout) (v f : Nat) : Layout :=
  { L with page := fun w => if w = v then some f else L.page w }

def Unused (L : Layout) (f : Nat) : Prop := forall x, L.frame x ≠ some f

variable {L : Layout}

theorem setTable_frame {i t : Nat} {x : Slot} {f : Nat} (h : (L.setTable i t).frame x = some f) :
    (x = Slot.table i ∧ f = t) ∨ L.frame x = some f := by
  cases x with
  | dir => exact Or.inr h
  | page v => exact Or.inr h
  | table k =>
      by_cases hk : k = i
      · have hsome : some t = some f := by
          rw [<- h]
          exact (if_pos hk).symm
        cases hsome
        rw [hk]
        exact Or.inl ⟨rfl, rfl⟩
      · have hold : (L.setTable i t).frame (Slot.table k) = L.table k := if_neg hk
        rw [hold] at h
        exact Or.inr h

theorem setPage_frame {v f : Nat} {x : Slot} {g : Nat} (h : (L.setPage v f).frame x = some g) :
    (x = Slot.page v ∧ g = f) ∨ L.frame x = some g := by
  cases x with
  | dir => exact Or.inr h
  | table i => exact Or.inr h
  | page w =>
      by_cases hw : w = v
      · have hsome : some f = some g := by
          rw [<- h]
          exact (if_pos hw).symm
        cases hsome
        rw [hw]
        exact Or.inl ⟨rfl, rfl⟩
      · have hold : (L.setPage v f).frame (Slot.page w) = L.page w := if_neg hw
        rw [hold] at h
        exact Or.inr h

theorem frame_setTable {i t : Nat} (hnone : L.table i = none) {x : Slot} {f : Nat}
    (h : L.frame x = some f) : (L.setTable i t).frame x = some f := by
  cases x with
  | dir => exact h
  | page v => exact h
  | table k =>
      have hk : k ≠ i := by
        intro e
        rw [show L.frame (Slot.table k) = L.table k from rfl, e, hnone] at h
        cases h
      rw [<- h]
      exact if_neg hk

theorem frame_setPage {v g : Nat} (hnone : L.page v = none) {x : Slot} {f : Nat}
    (h : L.frame x = some f) : (L.setPage v g).frame x = some f := by
  cases x with
  | dir => exact h
  | table i => exact h
  | page w =>
      have hw : w ≠ v := by
        intro e
        rw [show L.frame (Slot.page w) = L.page w from rfl, e, hnone] at h
        cases h
      rw [<- h]
      exact if_neg hw

end Layout

namespace Sound

variable {s : Phys} {free : List Nat} {L : Layout}

theorem bare (h : Sound s free L) {i : Nat} (hnone : L.table i = none) {j : Nat} (hj : j < 1024) :
    L.page (1024 * i + j) = none := by
  cases hp : L.page (1024 * i + j) with
  | none => rfl
  | some f =>
      rcases (h.page_table hp).right with ⟨t, hsome⟩
      rw [show (1024 * i + j) / 1024 = i by lia, hnone] at hsome
      cases hsome

theorem table_none (h : Sound s free L) {i : Nat} (hi : 512 ≤ i) : L.table i = none := by
  cases ht : L.table i with
  | none => rfl
  | some t =>
      have hlt := h.table_lt ht
      lia

theorem page_none (h : Sound s free L) {v : Nat} (hv : 512 ≤ v / 1024) : L.page v = none := by
  cases hp : L.page v with
  | none => rfl
  | some f =>
      have hlt := (h.page_table hp).left
      lia

theorem table_inPool (h : Sound s free L) {i t : Nat} (ht : L.table i = some t) : InPool t :=
  h.inPool (Slot.table i) t ht

theorem page_inPool (h : Sound s free L) {v f : Nat} (hv : L.page v = some f) : InPool f :=
  h.inPool (Slot.page v) f hv

theorem table_ne_dir (h : Sound s free L) {i t : Nat} (ht : L.table i = some t) : t ≠ L.dir := by
  intro e
  have hslot := h.own (Slot.table i) Slot.dir t ht (congrArg some e.symm)
  cases hslot

theorem table_injective (h : Sound s free L) {i k t : Nat} (hi : L.table i = some t)
    (hk : L.table k = some t) : i = k := by
  have hslot := h.own (Slot.table i) (Slot.table k) t hi hk
  cases hslot
  rfl

theorem unused_of_free (h : Sound s free L) {f : Nat} (hf : f ∈ free) : L.Unused f :=
  fun x hx => h.used x f hx hf

theorem ne_kpgdir {f : Nat} (hf : InPool f) : kpgdirFrame ≠ f := by
  rcases hf with ⟨hlow, -⟩
  intro e
  rw [<- e] at hlow
  exact absurd hlow (by decide)

theorem kpgdir_used (h : Sound s free L) : Not (kpgdirFrame ∈ free) :=
  fun hmem => ne_kpgdir (h.pool.inPool kpgdirFrame hmem) rfl

/-- Taking a frame off the list touches no address space. -/
theorem pop {f : Nat} {rest : List Nat} (h : Sound s (f :: rest) L) : Sound (s.pop f) rest L :=
  h.congr h.pool.palloc_cons.right (fun _ hg => Or.inl (List.mem_cons_of_mem f hg))
    (fun _ => rfl) (fun _ _ _ _ => rfl) (fun _ _ _ => rfl)

theorem setTable (h : Sound s free L) {i t : Nat} (hi : i < 512) (hnone : L.table i = none)
    (ht : InPool t) (hfree : Not (t ∈ free)) (hnew : L.Unused t) :
    Sound ((s.clear t).setEntry L.dir i (link t)) free (L.setTable i t) := by
  have hdir : L.dir ≠ t := fun e => hnew Slot.dir (congrArg some e)
  have hlt := link_lt ht
  constructor
  · refine h.pool.congr rfl ?_
    intro f hf
    have hf1 : f ≠ L.dir := fun e => h.used Slot.dir L.dir rfl (e ▸ hf)
    have hf2 : f ≠ t := fun e => hfree (e ▸ hf)
    rw [setEntry_of_ne hf1, clear_of_ne hf2]
  · apply layoutOf_eq (L := L.setTable i t)
    · intro k hk
      rw [show (L.setTable i t).dir = L.dir from rfl, entry_setEntry _ _ _ _ hlt,
        entry_clear_eq, if_neg hdir]
      by_cases hki : k = i
      · rw [if_pos ⟨rfl, hki⟩, target_link ht]
        exact (if_pos hki).symm
      · rw [if_neg (fun hboth => hki hboth.right), h.target_dir hk]
        exact (if_neg hki).symm
    · intro k u hk hu j hj
      rw [show (L.setTable i t).page = L.page from rfl]
      rcases Layout.setTable_frame (x := Slot.table k) hu with ⟨hki, hut⟩ | hold
      · cases hki
        rw [hut, entry_setEntry _ _ _ _ hlt, entry_clear_eq, if_pos rfl,
          if_neg (fun hboth => hdir hboth.left.symm), h.bare hnone hj]
        rfl
      · have hut : u ≠ t := fun e => hnew (Slot.table k) (e ▸ hold)
        rw [entry_setEntry _ _ _ _ hlt, entry_clear_eq, if_neg hut,
          if_neg (fun hboth => h.table_ne_dir hold hboth.left)]
        exact h.target_table hk hj hold
    · intro k hk hempty j hj
      have hold : L.table k = none := by
        by_cases hki : k = i
        · rw [hki]
          exact hnone
        · rw [<- hempty]
          exact (if_neg hki).symm
      exact h.bare hold hj
    · intro k hk
      have hki : k ≠ i := by lia
      rw [show (L.setTable i t).table k = L.table k from if_neg hki]
      exact h.table_none hk
    · exact fun v hv => h.page_none hv
  · intro k hlow hhigh
    have hkd : kpgdirFrame ≠ L.dir := ne_kpgdir h.dir_inPool
    have hki : k ≠ i := by lia
    have hmine : ((s.clear t).setEntry L.dir i (link t)).entry L.dir k = s.entry L.dir k := by
      rw [entry_setEntry _ _ _ _ hlt, if_neg (fun hboth => hki hboth.right), entry_clear_eq,
        if_neg hdir]
    have hkern : ((s.clear t).setEntry L.dir i (link t)).entry kpgdirFrame k =
        s.entry kpgdirFrame k := by
      rw [entry_setEntry _ _ _ _ hlt, if_neg (fun hboth => hkd hboth.left), entry_clear_eq,
        if_neg (ne_kpgdir ht)]
    exact hmine.trans ((h.kernel k hlow hhigh).trans hkern.symm)
  · intro x f hx
    rcases Layout.setTable_frame hx with ⟨-, hf⟩ | hold
    · rw [hf]
      exact ht
    · exact h.inPool x f hold
  · intro x f hx
    rcases Layout.setTable_frame hx with ⟨-, hf⟩ | hold
    · rw [hf]
      exact hfree
    · exact h.used x f hold
  · intro x y f hx hy
    rcases Layout.setTable_frame hx with ⟨hx, hf⟩ | hx
    · rcases Layout.setTable_frame hy with ⟨hy, -⟩ | hy
      · rw [hx, hy]
      · exact absurd (hf ▸ hy) (hnew y)
    · rcases Layout.setTable_frame hy with ⟨-, hf⟩ | hy
      · exact absurd (hf ▸ hx) (hnew x)
      · exact h.own x y f hx hy

theorem setPage (h : Sound s free L) {i j t f : Nat} (hj : j < 1024)
    (ht : L.table i = some t) (hf : InPool f) (hfree : Not (f ∈ free)) (hnew : L.Unused f) :
    Sound (s.setEntry t j (link f)) free (L.setPage (1024 * i + j) f) := by
  have hi := h.table_lt ht
  have hdir := h.table_ne_dir ht
  have hlt := link_lt hf
  constructor
  · refine h.pool.congr rfl ?_
    intro g hg
    have hgt : g ≠ t := fun e => h.used (Slot.table i) t ht (e ▸ hg)
    exact setEntry_of_ne hgt
  · apply layoutOf_eq (L := L.setPage (1024 * i + j) f)
    · intro k hk
      rw [show (L.setPage (1024 * i + j) f).dir = L.dir from rfl, entry_setEntry _ _ _ _ hlt,
        if_neg (fun hboth => hdir hboth.left.symm)]
      exact h.target_dir hk
    · intro k u hk hu l hl
      rw [entry_setEntry _ _ _ _ hlt]
      by_cases hsame : u = t ∧ l = j
      · have hki : k = i := h.table_injective (hsame.left ▸ hu) ht
        rw [if_pos hsame, target_link hf, hki, hsame.right]
        exact (if_pos rfl).symm
      · rw [if_neg hsame, h.target_table hk hl hu]
        have hne : 1024 * k + l ≠ 1024 * i + j := by
          intro e
          have hki : k = i := by lia
          have hlj : l = j := by lia
          rw [hki] at hu
          have hut : some u = some t := by
            rw [<- ht]
            exact hu.symm
          cases hut
          exact hsame ⟨rfl, hlj⟩
        exact (if_neg hne).symm
    · intro k hk hempty l hl
      have hki : k ≠ i := by
        intro e
        rw [e, show (L.setPage (1024 * i + j) f).table i = L.table i from rfl, ht] at hempty
        cases hempty
      rw [show (L.setPage (1024 * i + j) f).page (1024 * k + l) = L.page (1024 * k + l) from
        if_neg (by lia)]
      exact h.bare hempty hl
    · exact fun k hk => h.table_none hk
    · intro v hv
      rw [show (L.setPage (1024 * i + j) f).page v = L.page v from if_neg (by lia)]
      exact h.page_none hv
  · intro k hlow hhigh
    have hkd : kpgdirFrame ≠ t := ne_kpgdir (h.table_inPool ht)
    have hmine : (s.setEntry t j (link f)).entry L.dir k = s.entry L.dir k := by
      rw [entry_setEntry _ _ _ _ hlt, if_neg (fun hboth => hdir hboth.left.symm)]
    have hkern : (s.setEntry t j (link f)).entry kpgdirFrame k = s.entry kpgdirFrame k := by
      rw [entry_setEntry _ _ _ _ hlt, if_neg (fun hboth => hkd hboth.left)]
    exact hmine.trans ((h.kernel k hlow hhigh).trans hkern.symm)
  · intro x g hx
    rcases Layout.setPage_frame hx with ⟨-, hg⟩ | hold
    · rw [hg]
      exact hf
    · exact h.inPool x g hold
  · intro x g hx
    rcases Layout.setPage_frame hx with ⟨-, hg⟩ | hold
    · rw [hg]
      exact hfree
    · exact h.used x g hold
  · intro x y g hx hy
    rcases Layout.setPage_frame hx with ⟨hx, hg⟩ | hx
    · rcases Layout.setPage_frame hy with ⟨hy, -⟩ | hy
      · rw [hx, hy]
      · exact absurd (hg ▸ hy) (hnew y)
    · rcases Layout.setPage_frame hy with ⟨-, hg⟩ | hy
      · exact absurd (hg ▸ hx) (hnew x)
      · exact h.own x y g hx hy

end Sound

end Vm
end Kernel
end NicoOS
