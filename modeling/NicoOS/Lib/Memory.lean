import Mathlib.Tactic.Common

/-!
# Flat byte memory

A memory gives every address a byte.  Four consecutive bytes hold a
little-endian word; the lemmas say what a word read sees after a word or byte
write, by how the two ranges lie.
-/

namespace NicoOS
namespace Lib

abbrev Memory := Nat -> UInt8

namespace Memory

def word (mem : Memory) (a : Nat) : Nat :=
  (mem a).toNat + 256 * (mem (a + 1)).toNat + 65536 * (mem (a + 2)).toNat +
    16777216 * (mem (a + 3)).toNat

def setByte (mem : Memory) (a : Nat) (v : UInt8) : Memory :=
  fun x => if x = a then v else mem x

def setWord (mem : Memory) (a v : Nat) : Memory :=
  fun x =>
    if x = a then UInt8.ofNat v
    else if x = a + 1 then UInt8.ofNat (v / 256)
    else if x = a + 2 then UInt8.ofNat (v / 65536)
    else if x = a + 3 then UInt8.ofNat (v / 16777216)
    else mem x

/-- Store one byte value in `n` consecutive addresses. -/
def fill (mem : Memory) (a : Nat) (v : UInt8) (n : Nat) : Memory :=
  fun x => if a ≤ x ∧ x < a + n then v else mem x

theorem word_congr {mem mem' : Memory} {a : Nat}
    (h : forall x, a ≤ x -> x < a + 4 -> mem' x = mem x) :
    mem'.word a = mem.word a := by
  unfold word
  rw [h a (by lia) (by lia), h (a + 1) (by lia) (by lia),
    h (a + 2) (by lia) (by lia), h (a + 3) (by lia) (by lia)]

theorem setWord_of_outside (mem : Memory) {a x : Nat} (v : Nat)
    (h : x < a ∨ a + 4 ≤ x) : mem.setWord a v x = mem x := by
  unfold setWord
  rw [if_neg (by lia), if_neg (by lia), if_neg (by lia), if_neg (by lia)]

theorem word_setWord_self (mem : Memory) (a : Nat) {v : Nat}
    (hv : v < 0x100000000) : (mem.setWord a v).word a = v := by
  simp [word, setWord]
  lia

theorem word_setWord_of_apart (mem : Memory) {a b : Nat} (v : Nat)
    (h : b + 4 ≤ a ∨ a + 4 ≤ b) : (mem.setWord a v).word b = mem.word b := by
  apply word_congr
  intro x hx1 hx2
  exact setWord_of_outside mem v (by lia)

theorem word_setByte_of_outside (mem : Memory) {a b : Nat} (v : UInt8)
    (h : a < b ∨ b + 4 ≤ a) : (mem.setByte a v).word b = mem.word b := by
  apply word_congr
  intro x hx1 hx2
  unfold setByte
  rw [if_neg (by lia)]

theorem word_fill_of_apart (mem : Memory) {a b n : Nat} (v : UInt8)
    (h : b + 4 ≤ a ∨ a + n ≤ b) : (mem.fill a v n).word b = mem.word b := by
  apply word_congr
  intro x hx1 hx2
  unfold fill
  rw [if_neg (by lia)]

theorem word_fill_zero (mem : Memory) {a b n : Nat} (h1 : a ≤ b)
    (h2 : b + 4 ≤ a + n) : (mem.fill a 0 n).word b = 0 := by
  unfold word fill
  rw [if_pos (by lia), if_pos (by lia), if_pos (by lia), if_pos (by lia)]
  rfl

/-- The memory that holds the given words one behind the other. -/
def ofWords (w : Nat -> UInt32) : Memory := fun i =>
  if i % 4 = 0 then UInt8.ofNat (w (i / 4)).toNat
  else if i % 4 = 1 then UInt8.ofNat ((w (i / 4)).toNat / 256)
  else if i % 4 = 2 then UInt8.ofNat ((w (i / 4)).toNat / 65536)
  else UInt8.ofNat ((w (i / 4)).toNat / 16777216)

theorem word_ofWords (w : Nat -> UInt32) (i : Nat) : (ofWords w).word (4 * i) = (w i).toNat := by
  have hlt := (w i).toNat_lt
  have h0 : 4 * i / 4 = i := by lia
  have h1 : (4 * i + 1) / 4 = i := by lia
  have h2 : (4 * i + 2) / 4 = i := by lia
  have h3 : (4 * i + 3) / 4 = i := by lia
  unfold word ofWords
  rw [if_pos (by lia), if_neg (by lia), if_pos (by lia), if_neg (by lia), if_neg (by lia),
    if_pos (by lia), if_neg (by lia), if_neg (by lia), if_neg (by lia), h0, h1, h2, h3]
  simp
  lia

/-!
# Linked lists in memory

A node is the address of the word that holds its link, and the link 0 ends the
list.
-/

/-- The links from `head` pass through exactly the nodes of the list. -/
def Chain (mem : Memory) : Nat -> List Nat -> Prop
  | head, [] => head = 0
  | head, node :: rest => head = node ∧ Chain mem (mem.word node) rest

def walk (mem : Memory) : Nat -> Nat -> List Nat
  | 0, _ => []
  | n + 1, node => node :: walk mem n (mem.word node)

theorem Chain.walk_eq {mem : Memory} {head : Nat} {nodes : List Nat}
    (h : Chain mem head nodes) : walk mem nodes.length head = nodes := by
  induction nodes generalizing head with
  | nil => rfl
  | cons node rest ih =>
      rcases h with ⟨rfl, hrest⟩
      show head :: walk mem rest.length (mem.word head) = head :: rest
      rw [ih hrest]

theorem Chain.congr {mem mem' : Memory} {head : Nat} {nodes : List Nat}
    (h : Chain mem head nodes)
    (hword : forall node, node ∈ nodes -> mem'.word node = mem.word node) :
    Chain mem' head nodes := by
  induction nodes generalizing head with
  | nil => exact h
  | cons node rest ih =>
      rcases h with ⟨rfl, hrest⟩
      refine ⟨rfl, ?_⟩
      rw [hword head List.mem_cons_self]
      exact ih hrest (fun x hx => hword x (List.mem_cons_of_mem head hx))

end Memory
end Lib
end NicoOS
