import NicoOS.User.Stdio.Itoa

/-!
# Formatted output

`vsprintf` and `vfprintf` of `lib/src/stdio.c`.  The format and the strings among the arguments
lie apart from what is stored.
-/

namespace NicoOS
namespace User
namespace Stdio

open Lib

/-- What `va_arg` takes: a word, or the text of a string. -/
inductive Arg where
  | int (word : BitVec 32)
  | str (text : Text)
  deriving DecidableEq

/-- The cases of the switch in `vsprintf`; it has none for other bytes. -/
inductive Conversion where
  | number (radix : Nat)
  | string
  | char
  | unknown
  deriving DecidableEq

def conversionOf (ch : UInt8) : Conversion :=
  if ch = 0x78 ∨ ch = 0x70 then Conversion.number 16
  else if ch = 0x6f then Conversion.number 8
  else if ch = 0x64 then Conversion.number 10
  else if ch = 0x73 then Conversion.string
  else if ch = 0x63 then Conversion.char
  else Conversion.unknown

/-- One case; `none` where an argument is missing or is of the other kind. -/
def convert : Conversion -> List Arg -> Nat -> Memory -> Option (List Arg × Nat × Memory)
  | Conversion.number radix, Arg.int word :: args, p, mem => do
      let (p, mem) <- itoa word p radix mem
      some (args, p, mem)
  | Conversion.string, Arg.str text :: args, p, mem =>
      some (args, p + text.length, mem.put p text)
  | Conversion.char, Arg.int word :: args, p, mem =>
      some (args, p + 1, mem.setByte p (UInt8.ofNat word.toNat))
  | Conversion.unknown, args, p, mem => some (args, p, mem)
  | _, _, _, _ => none

/-- The loop of `vsprintf` from `p` on, which ends at the end of the text. -/
def formatFrom : Text -> List Arg -> Nat -> Memory -> Option (Nat × Memory)
  | [], _, p, mem => some (p, mem.setByte p 0)
  | ch :: format, args, p, mem =>
      if ch ≠ 0x25 then
        formatFrom format args (p + 1) (mem.setByte p ch)
      else
        match format with
        | [] => some (p + 1, (mem.setByte p 0x25).setByte (p + 1) 0)
        | ch :: format => do
            let (args, p, mem) <- convert (conversionOf ch) args p mem
            formatFrom format args p mem

def vsprintf (buf : Nat) (format : Text) (args : List Arg) (mem : Memory) :
    Option (Nat × Memory) := do
  let (p, mem) <- formatFrom format args buf mem
  some (p - buf, mem)

def bufSize : Nat := 1024

/-- `vfprintf` with its buffer at `buf`: the bytes that it writes. -/
def vfprintf (buf : Nat) (format : Text) (args : List Arg) (mem : Memory) :
    Option (Text × Memory) := do
  let (n, mem) <- vsprintf buf format args mem
  some ((List.range n).map (fun i => mem (buf + i)), mem)

/-!
# What is printed
-/

/-- The text of a conversion, and the arguments behind its own. -/
def converted : Conversion -> List Arg -> Option (Text × List Arg)
  | Conversion.number radix, Arg.int word :: args => some (itoaText word radix, args)
  | Conversion.string, Arg.str text :: args => some (text, args)
  | Conversion.char, Arg.int word :: args => some ([UInt8.ofNat word.toNat], args)
  | Conversion.unknown, args => some ([], args)
  | _, _ => none

/-- The text of a format; `%` at the end stands for itself. -/
def printed : Text -> List Arg -> Option Text
  | [], _ => some []
  | ch :: format, args =>
      if ch ≠ 0x25 then
        (printed format args).map (fun text => ch :: text)
      else
        match format with
        | [] => some [0x25]
        | ch :: format => do
            let (text, args) <- converted (conversionOf ch) args
            (printed format args).map (fun rest => text ++ rest)

def stored (p : Nat) (mem : Memory) (text : Text) : Nat × Memory :=
  (p + text.length, mem.put p (text ++ [0]))

section Printing

variable {p : Nat} {mem : Memory} {first : Text}

theorem stored_append (p : Nat) (mem : Memory) (first rest : Text) :
    stored (p + first.length) (mem.put p first) rest = stored p mem (first ++ rest) := by
  unfold stored
  rw [Memory.put_append, List.length_append, List.append_assoc, Nat.add_assoc]

/-- The end of a text gives way to what comes behind it. -/
theorem stored_over (p : Nat) (mem : Memory) (first rest : Text) :
    stored (p + first.length) (mem.put p (first ++ [0])) rest = stored p mem (first ++ rest) := by
  unfold stored
  rw [Memory.put_over, List.length_append, List.append_assoc, Nat.add_assoc]

theorem stored_cons (p : Nat) (mem : Memory) (ch : UInt8) (rest : Text) :
    stored (p + 1) (mem.setByte p ch) rest = stored p mem (ch :: rest) := by
  rw [Memory.setByte_eq_put]
  exact stored_append p mem [ch] rest

theorem two_le_radix {ch : UInt8} {radix : Nat} (h : conversionOf ch = Conversion.number radix) :
    2 ≤ radix := by
  unfold conversionOf at h
  split at h
  · cases h
    decide
  · split at h
    · cases h
      decide
    · split at h
      · cases h
        decide
      · split at h
        · cases h
        · split at h
          · cases h
          · cases h

/-- A case of the switch stores its text, and the rest goes on behind it. -/
theorem convert_stored (c : Conversion) (hradix : forall radix, c = Conversion.number radix ->
      2 ≤ radix) (args : List Arg) (p : Nat) (mem : Memory) :
    (converted c args = none ∧ convert c args p mem = none) ∨
      exists text args' mem', converted c args = some (text, args') ∧
        convert c args p mem = some (args', p + text.length, mem') ∧
        forall rest, stored (p + text.length) mem' rest = stored p mem (text ++ rest) := by
  cases c with
  | unknown =>
      right
      refine ⟨[], args, mem, ?_, ?_, fun rest => rfl⟩
      · cases args with
        | nil => rfl
        | cons arg args => rfl
      · cases args with
        | nil => rfl
        | cons arg args => rfl
  | number radix =>
      cases args with
      | nil => exact Or.inl ⟨rfl, rfl⟩
      | cons arg args =>
          cases arg with
          | str text => exact Or.inl ⟨rfl, rfl⟩
          | int word =>
              right
              refine ⟨itoaText word radix, args, _, rfl, ?_,
                stored_over p mem (itoaText word radix)⟩
              rw [convert, itoa_put word p mem (hradix radix rfl)]
              rfl
  | string =>
      cases args with
      | nil => exact Or.inl ⟨rfl, rfl⟩
      | cons arg args =>
          cases arg with
          | int word => exact Or.inl ⟨rfl, rfl⟩
          | str text => exact Or.inr ⟨text, args, _, rfl, rfl, stored_append p mem text⟩
  | char =>
      cases args with
      | nil => exact Or.inl ⟨rfl, rfl⟩
      | cons arg args =>
          cases arg with
          | str text => exact Or.inl ⟨rfl, rfl⟩
          | int word => exact Or.inr ⟨_, args, _, rfl, rfl, stored_cons p mem _⟩

/-- The loop stores the text of the format and its end. -/
theorem formatFrom_stored (n : Nat) : forall format : Text, format.length ≤ n ->
    forall args p mem,
      formatFrom format args p mem = (printed format args).map (stored p mem) := by
  induction n with
  | zero =>
      intro format hlen args p mem
      cases List.length_eq_zero_iff.mp (Nat.le_zero.mp hlen)
      rw [formatFrom, printed, Memory.setByte_eq_put]
      rfl
  | succ n ih =>
      intro format hlen args p mem
      cases format with
      | nil =>
          rw [formatFrom, printed, Memory.setByte_eq_put]
          rfl
      | cons ch format =>
          have hrest : format.length ≤ n := Nat.le_of_succ_le_succ hlen
          cases Classical.em (ch ≠ 0x25) with
          | inl hne =>
              rw [formatFrom.eq_def, printed.eq_def]
              dsimp only
              rw [if_pos hne, if_pos hne, ih format hrest, Option.map_map]
              congr 1
              funext rest
              exact stored_cons p mem ch rest
          | inr hpercent =>
              rw [formatFrom.eq_def, printed.eq_def]
              dsimp only
              rw [if_neg hpercent, if_neg hpercent]
              cases format with
              | nil =>
                  rw [Memory.setByte_eq_put (a := p + 1)]
                  exact congrArg some (stored_cons p mem 0x25 [])
              | cons ch format =>
                  have hless : format.length ≤ n := Nat.le_of_succ_le hrest
                  rcases convert_stored (conversionOf ch) (fun radix => two_le_radix) args p mem
                    with ⟨htext, hcode⟩ | ⟨text, args', mem', htext, hcode, hstored⟩
                  · dsimp only
                    rw [htext, hcode]
                    rfl
                  · dsimp only
                    rw [htext, hcode]
                    dsimp only [Option.bind_eq_bind, Option.bind_some]
                    rw [ih format hless, Option.map_map]
                    congr 1
                    funext rest
                    exact hstored rest

/-- `vsprintf` stores the text of its format with its end, and returns its length. -/
theorem vsprintf_stored (buf : Nat) (format : Text) (args : List Arg) (mem : Memory) :
    vsprintf buf format args mem =
      (printed format args).map (fun text => (text.length, mem.put buf (text ++ [0]))) := by
  unfold vsprintf
  rw [formatFrom_stored format.length format (Nat.le_refl _)]
  cases printed format args with
  | none => rfl
  | some text =>
      show some (buf + text.length - buf, mem.put buf (text ++ [0])) = _
      rw [Nat.add_sub_cancel_left]
      rfl

theorem vfprintf_prints (buf : Nat) (format : Text) (args : List Arg) (mem : Memory) :
    vfprintf buf format args mem =
      (printed format args).map (fun text => (text, mem.put buf (text ++ [0]))) := by
  unfold vfprintf
  rw [vsprintf_stored]
  cases printed format args with
  | none => rfl
  | some text =>
      show some ((List.range text.length).map (fun i => mem.put buf (text ++ [0]) (buf + i)), _) =
        some (text, _)
      congr 2
      apply List.ext_getElem
      · rw [List.length_map, List.length_range]
      · intro i hi htext
        have hin : i < (text ++ [0]).length := by
          rw [List.length_append]
          exact Nat.lt_add_right _ htext
        rw [List.getElem_map, List.getElem_range, Memory.put_inside hin,
          List.getElem_append_left htext]

/-- `vfprintf` stays inside of its buffer just where the text with its end fits. -/
theorem vfprintf_inside_iff (buf : Nat) (format : Text) (args : List Arg) {text : Text}
    (hprinted : printed format args = some text) :
    (forall mem out mem', vfprintf buf format args mem = some (out, mem') ->
      forall x, x < buf ∨ buf + bufSize ≤ x -> mem' x = mem x) <->
      text.length < bufSize := by
  have hrun : forall mem, vfprintf buf format args mem =
      some (text, mem.put buf (text ++ [0])) := by
    intro mem
    rw [vfprintf_prints, hprinted]
    rfl
  have hlen : (text ++ [0]).length = text.length + 1 := List.length_append
  constructor
  · intro hinside
    by_contra hge
    -- The byte behind the buffer is one of the text, or its end.
    have hin : bufSize < (text ++ [0]).length := by lia
    have hsame := hinside (fun _ => (text ++ [0])[bufSize] + 1) _ _ (hrun _) (buf + bufSize)
      (Or.inr (Nat.le_refl _))
    rw [Memory.put_inside hin] at hsame
    exact absurd hsame (by simp)
  · intro hfits mem out mem' hout x hx
    rw [hrun] at hout
    cases hout
    rcases hx with hlt | hge
    · exact Memory.put_below hlt
    · exact Memory.put_behind (by lia)

/-- A string of 2000 bytes does not fit. -/
theorem vfprintf_inside_iff_long :
    (forall mem out mem',
      vfprintf 0 [0x25, 0x73] [Arg.str (List.replicate 2000 0x61)] mem = some (out, mem') ->
      forall x, x < 0 ∨ 0 + bufSize ≤ x -> mem' x = mem x) <->
      (List.replicate 2000 (0x61 : UInt8) ++ []).length < bufSize :=
  vfprintf_inside_iff 0 [0x25, 0x73] [Arg.str (List.replicate 2000 0x61)] rfl

end Printing

end Stdio
end User
end NicoOS
