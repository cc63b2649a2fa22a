import NicoOS.Shell.Lexer

/-!
# Quoted forms of a string

`read_string` and `read_string_with_quotes` find the end of a token, and `copy_peek_string`
takes the backslashes out of it.  The first two know the kind of quote, the last does not.
-/

namespace NicoOS
namespace Shell

open Lexer

def scanTok (p : Text) : Peek × Text := scanAt (tokenStart (p.length + 1) p)

/-- What `copy_peek_string` makes of a string token that lies in the buffer. -/
def Lexer.Peek.copied : Peek -> Option Text
  | Peek.string p len =>
      if 0 ≤ len ∧ len ≤ (p.length : Int) then some (copyPeekString (p.take len.toNat)) else none
  | _ => none

/-- The buffer at `p` begins with a string token with the value `s`, and `rest` is behind it. -/
def LexesTo (p s rest : Text) : Prop :=
  exists peek, scanTok p = (peek, rest) ∧ peek.copied = some s

def escape (special : UInt8 -> Bool) (s : Text) : Text :=
  s.flatMap (fun ch => if special ch then [backslash, ch] else [ch])

def specialInQuotes (ch : UInt8) : Bool := ch = backslash || ch = doubleQuote

def specialInWords (ch : UInt8) : Bool :=
  isSymbol ch || isWhitespace ch || isQuote ch || ch = hash || ch = backslash

def doubleQuoted (s : Text) : Text := doubleQuote :: (escape specialInQuotes s ++ [doubleQuote])

def singleQuoted (s : Text) : Text := singleQuote :: (s ++ [singleQuote])

def bare (s : Text) : Text := escape specialInWords s

def EndsWord (rest : Text) : Prop :=
  forall ch us, rest = ch :: us -> ch = 0x20 ∨ ch = newline

/-- No backslash gives way to the byte behind it. -/
def Unescaped (s : Text) : Prop := backslash ∉ s.dropLast

instance (s : Text) : Decidable (Unescaped s) := inferInstanceAs (Decidable (Not _))

/-!
# Escapes
-/

section Escapes

variable {special : UInt8 -> Bool} {ch : UInt8} {s rest : Text}

theorem escape_special (h : special ch = true) :
    escape special (ch :: s) = backslash :: ch :: escape special s := by
  simp [escape, h]

theorem escape_plain (h : special ch = false) :
    escape special (ch :: s) = ch :: escape special s := by
  simp [escape, h]

theorem zero_notMem_escape (h : 0 ∉ s) : 0 ∉ escape special s := by
  induction s with
  | nil => exact List.not_mem_nil
  | cons ch s ih =>
      rw [List.mem_cons, not_or] at h
      rcases h with ⟨hch, hs⟩
      have hslash : (0 : UInt8) ≠ backslash := by decide
      cases hspecial : special ch with
      | true =>
          rw [escape_special hspecial, List.mem_cons, List.mem_cons]
          intro hor
          rcases hor with hzero | hzero | hzero
          · exact hslash hzero
          · exact hch hzero
          · exact ih hs hzero
      | false =>
          rw [escape_plain hspecial, List.mem_cons]
          intro hor
          rcases hor with hzero | hzero
          · exact hch hzero
          · exact ih hs hzero

theorem copyPeekString_backslash (ch : UInt8) (s : Text) :
    copyPeekString (backslash :: ch :: s) = ch :: copyPeekString s := rfl

theorem copyPeekString_plain (h : ch ≠ backslash) :
    copyPeekString (ch :: s) = ch :: copyPeekString s := by
  cases s with
  | nil => rfl
  | cons next s => exact if_neg h

theorem copyPeekString_escape (hslash : special backslash = true) (s : Text) :
    copyPeekString (escape special s) = s := by
  induction s with
  | nil => rfl
  | cons ch s ih =>
      cases hspecial : special ch with
      | true =>
          rw [escape_special hspecial, copyPeekString_backslash, ih]
      | false =>
          have hne : ch ≠ backslash := by
            intro heq
            subst heq
            exact Bool.false_ne_true (hspecial.symm.trans hslash)
          rw [escape_plain hspecial, copyPeekString_plain hne, ih]

theorem length_copyPeekString (s : Text) : (copyPeekString s).length ≤ s.length := by
  fun_induction copyPeekString s with
  | case1 => exact Nat.le_refl _
  | case2 => exact Nat.le_refl _
  | case3 next rest ih =>
      simp only [List.length_cons]
      lia
  | case4 ch next rest _ ih =>
      simp only [List.length_cons] at ih ⊢
      lia

/-- A copy is the text itself if and only if no backslash gives way. -/
theorem copyPeekString_eq_self (s : Text) : copyPeekString s = s <-> Unescaped s := by
  unfold Unescaped
  fun_induction copyPeekString s with
  | case1 => simp
  | case2 => simp
  | case3 next rest ih =>
      constructor
      · intro h
        have hlen := congrArg List.length h
        have hshort := length_copyPeekString rest
        simp only [List.length_cons] at hlen
        lia
      · intro h
        exact absurd (List.mem_cons_self) h
  | case4 ch next rest hne ih =>
      have hslash : backslash ≠ ch := fun heq => hne heq.symm
      rw [List.cons_inj_right, ih, List.dropLast_cons_cons, List.mem_cons, not_or]
      exact ⟨fun h => ⟨hslash, h⟩, fun h => h.right⟩

/-!
# Where a string ends
-/

theorem readStringWithQuotes_close (close : UInt8) (rest : Text) :
    readStringWithQuotes close (close :: rest) = rest := by
  cases rest with
  | nil => rfl
  | cons next rest => exact if_pos rfl

theorem readStringWithQuotes_escape (ch : UInt8) (rest : Text) :
    readStringWithQuotes doubleQuote (backslash :: ch :: rest) =
      readStringWithQuotes doubleQuote rest := by
  have hne : backslash ≠ doubleQuote := by decide
  rw [readStringWithQuotes, if_neg hne, if_pos ⟨rfl, rfl⟩]

theorem readStringWithQuotes_next {close : UInt8} (hne : ch ≠ close)
    (hescape : Not (ch = backslash ∧ close = doubleQuote)) :
    readStringWithQuotes close (ch :: rest) = readStringWithQuotes close rest := by
  cases rest with
  | nil => rfl
  | cons next rest => rw [readStringWithQuotes, if_neg hne, if_neg hescape]

theorem readStringWithQuotes_escaped (s rest : Text) :
    readStringWithQuotes doubleQuote (escape specialInQuotes s ++ doubleQuote :: rest) = rest := by
  induction s with
  | nil => exact readStringWithQuotes_close doubleQuote rest
  | cons ch s ih =>
      cases hspecial : specialInQuotes ch with
      | true =>
          rw [escape_special hspecial, List.cons_append, List.cons_append,
            readStringWithQuotes_escape]
          exact ih
      | false =>
          simp only [specialInQuotes, Bool.or_eq_false_iff, decide_eq_false_iff_not] at hspecial
          rw [escape_plain (by simp [specialInQuotes, hspecial]), List.cons_append,
            readStringWithQuotes_next hspecial.right (fun hboth => hspecial.left hboth.left)]
          exact ih

theorem readStringWithQuotes_single (h : singleQuote ∉ s) :
    readStringWithQuotes singleQuote (s ++ singleQuote :: rest) = rest := by
  have hquotes : singleQuote ≠ doubleQuote := by decide
  induction s with
  | nil => exact readStringWithQuotes_close singleQuote rest
  | cons ch s ih =>
      rw [List.mem_cons, not_or] at h
      have hne : ch ≠ singleQuote := fun heq => h.left heq.symm
      rw [List.cons_append, readStringWithQuotes_next hne (fun hboth => hquotes hboth.right)]
      exact ih h.right

theorem readString_stop (h : (isSymbol ch || isWhitespace ch) = true) :
    readString (ch :: rest) = ch :: rest := by
  cases rest with
  | nil => exact if_pos h
  | cons next rest => exact if_pos h

theorem readString_escape (ch : UInt8) (rest : Text) :
    readString (backslash :: ch :: rest) = readString rest := rfl

theorem readString_next (h : (isSymbol ch || isWhitespace ch) = false) (hne : ch ≠ backslash) :
    readString (ch :: rest) = readString rest := by
  cases rest with
  | nil => exact if_neg (by simp [h])
  | cons next rest => rw [readString, if_neg (by simp [h]), if_neg hne]

/-- A word ends at the space or at the end of the line. -/
theorem readString_ends (h : EndsWord rest) : readString rest = rest := by
  cases rest with
  | nil => rfl
  | cons ch us =>
      apply readString_stop
      rcases h ch us rfl with heq | heq
      · rw [heq]
        rfl
      · rw [heq]
        rfl

theorem readString_bare (s : Text) (h : EndsWord rest) : readString (bare s ++ rest) = rest := by
  unfold bare
  induction s with
  | nil => exact readString_ends h
  | cons ch s ih =>
      cases hspecial : specialInWords ch with
      | true =>
          rw [escape_special hspecial, List.cons_append, List.cons_append, readString_escape]
          exact ih
      | false =>
          rw [escape_plain hspecial, List.cons_append]
          simp only [specialInWords, Bool.or_eq_false_iff, decide_eq_false_iff_not] at hspecial
          rcases hspecial with ⟨⟨⟨⟨hsymbol, hblank⟩, -⟩, -⟩, hslash⟩
          rw [readString_next (by rw [hsymbol, hblank]; rfl) hslash]
          exact ih

/-!
# The token of a form
-/

/-- A token begins at a byte that is no blank and begins no comment. -/
theorem scanTok_cons (hblank : isWhitespace ch = false) (hhash : ch ≠ hash) :
    scanTok (ch :: rest) = scanAt (ch :: rest) := by
  have hskip : skipWhitespace (ch :: rest) = ch :: rest := by
    simp [skipWhitespace, hblank]
  unfold scanTok
  rw [tokenStart, hskip]
  dsimp only
  rw [if_neg hhash]

theorem scanAt_quote (hsymbol : isSymbol ch = false) (hquote : isQuote ch = true) :
    scanAt (ch :: rest) = (Peek.string rest (((ch :: rest).length : Int) -
      (readStringWithQuotes ch rest).length - 2), readStringWithQuotes ch rest) := by
  simp only [isSymbol, Bool.or_eq_false_iff, decide_eq_false_iff_not] at hsymbol
  simp [scanAt, hsymbol, hquote]

theorem scanAt_word (hsymbol : isSymbol ch = false) (hquote : isQuote ch = false) :
    scanAt (ch :: rest) = (Peek.string (ch :: rest) (((ch :: rest).length : Int) -
      (readString (ch :: rest)).length), readString (ch :: rest)) := by
  simp only [isSymbol, Bool.or_eq_false_iff, decide_eq_false_iff_not] at hsymbol
  simp [scanAt, hsymbol, hquote]

theorem copied_append (s rest : Text) :
    (Peek.string (s ++ rest) (s.length : Int)).copied = some (copyPeekString s) := by
  have hin : 0 ≤ (s.length : Int) ∧ (s.length : Int) ≤ ((s ++ rest).length : Int) := by
    rw [List.length_append]
    lia
  unfold Peek.copied
  dsimp only
  rw [if_pos hin, Int.toNat_natCast, List.take_left]

/-- A string between two quotes is the token if it ends at the second. -/
theorem scanTok_quoted {quote : UInt8} (hquote : isQuote quote = true)
    (h : readStringWithQuotes quote (s ++ quote :: rest) = rest) :
    scanTok (quote :: (s ++ quote :: rest)) =
      (Peek.string (s ++ quote :: rest) s.length, rest) := by
  have hplain : isWhitespace quote = false ∧ quote ≠ hash ∧ isSymbol quote = false := by
    simp only [isQuote, Bool.or_eq_true, decide_eq_true_eq] at hquote
    rcases hquote with heq | heq
    · rw [heq]
      decide
    · rw [heq]
      decide
  rcases hplain with ⟨hblank, hhash, hsymbol⟩
  have hlen : (((quote :: (s ++ quote :: rest)).length : Int) - rest.length - 2) = s.length := by
    simp only [List.length_cons, List.length_append]
    lia
  rw [scanTok_cons hblank hhash, scanAt_quote hsymbol hquote, h, hlen]

theorem scanTok_bare (hne : s ≠ []) (h : EndsWord rest) :
    scanTok (bare s ++ rest) = (Peek.string (bare s ++ rest) (bare s).length, rest) := by
  have hhead : exists ch us, bare s = ch :: us ∧ isWhitespace ch = false ∧ ch ≠ hash ∧
      isSymbol ch = false ∧ isQuote ch = false := by
    cases s with
    | nil => exact absurd rfl hne
    | cons ch us =>
        cases hspecial : specialInWords ch with
        | true => exact ⟨backslash, _, escape_special hspecial, by decide⟩
        | false =>
            refine ⟨ch, _, escape_plain hspecial, ?_⟩
            simp only [specialInWords, Bool.or_eq_false_iff, decide_eq_false_iff_not] at hspecial
            rcases hspecial with ⟨⟨⟨⟨hsymbol, hblank⟩, hquote⟩, hhash⟩, -⟩
            exact ⟨hblank, hhash, hsymbol, hquote⟩
  have hread := readString_bare s h
  rcases hhead with ⟨ch, us, hbare, hblank, hhash, hsymbol, hquote⟩
  have hlen : (((ch :: us ++ rest).length : Int) - rest.length) = (ch :: us).length := by
    rw [List.length_append]
    lia
  rw [hbare] at hread ⊢
  rw [List.cons_append] at hread hlen ⊢
  rw [scanTok_cons hblank hhash, scanAt_word hsymbol hquote, hread, hlen]

theorem cString_append (p junk : Text) (h : 0 ∉ p) : cString (p ++ 0 :: junk) = p := by
  have hall : forall ch, ch ∈ p -> decide (ch ≠ 0) = true := by
    intro ch hch
    apply decide_eq_true
    intro heq
    subst heq
    exact h hch
  unfold cString
  rw [List.takeWhile_append_of_pos hall]
  simp

end Escapes

/-!
# Round trips
-/

section Forms

variable {s rest : Text}

theorem doubleQuoted_append (s rest : Text) :
    doubleQuoted s ++ rest = doubleQuote :: (escape specialInQuotes s ++ doubleQuote :: rest) := by
  simp [doubleQuoted]

theorem singleQuoted_append (s rest : Text) :
    singleQuoted s ++ rest = singleQuote :: (s ++ singleQuote :: rest) := by
  simp [singleQuoted]

theorem lexesTo_doubleQuoted (s rest : Text) : LexesTo (doubleQuoted s ++ rest) s rest := by
  rw [doubleQuoted_append]
  refine ⟨_, scanTok_quoted rfl (readStringWithQuotes_escaped s rest), ?_⟩
  rw [copied_append, copyPeekString_escape rfl]

theorem lexesTo_bare (hne : s ≠ []) (h : EndsWord rest) : LexesTo (bare s ++ rest) s rest := by
  refine ⟨_, scanTok_bare hne h, ?_⟩
  rw [copied_append, bare, copyPeekString_escape rfl]

theorem lexesTo_singleQuoted (h : singleQuote ∉ s) :
    LexesTo (singleQuoted s ++ rest) s rest <-> Unescaped s := by
  rw [singleQuoted_append, <- copyPeekString_eq_self]
  have hscan := scanTok_quoted rfl (readStringWithQuotes_single h : _ = rest)
  constructor
  · intro hex
    rcases hex with ⟨peek, hpeek, hcopied⟩
    rw [hscan] at hpeek
    cases hpeek
    rw [copied_append] at hcopied
    exact Option.some.inj hcopied
  · intro hcopy
    refine ⟨_, hscan, ?_⟩
    rw [copied_append, hcopy]

/--
Both quoted forms of a string without `NUL` are read as one token with that value, whatever
the buffer holds behind its `NUL`.
-/
theorem quoting_roundTrip (s rest junk : Text) (hs : 0 ∉ s) (hrest : 0 ∉ rest)
    (hends : EndsWord rest) :
    LexesTo (cString (doubleQuoted s ++ rest ++ 0 :: junk)) s rest ∧
      (s ≠ [] -> LexesTo (cString (bare s ++ rest ++ 0 :: junk)) s rest) := by
  constructor
  · have hzero : 0 ∉ doubleQuoted s ++ rest := by
      rw [doubleQuoted_append]
      simp only [List.mem_cons, List.mem_append, not_or]
      exact ⟨by decide, zero_notMem_escape hs, by decide, hrest⟩
    rw [cString_append _ junk hzero]
    exact lexesTo_doubleQuoted s rest
  · intro hne
    have hzero : 0 ∉ bare s ++ rest := by
      rw [List.mem_append, not_or]
      exact ⟨zero_notMem_escape hs, hrest⟩
    rw [cString_append _ junk hzero]
    exact lexesTo_bare hne hends

/-- The string `a "\` and the end of the line. -/
theorem quoting_roundTrip_mixed :
    LexesTo (cString (doubleQuoted [0x61, 0x20, 0x22, 0x5c] ++ [0x0a] ++ [0, 0x78]))
        [0x61, 0x20, 0x22, 0x5c] [0x0a] ∧
      LexesTo (cString (bare [0x61, 0x20, 0x22, 0x5c] ++ [0x0a] ++ [0, 0x78]))
        [0x61, 0x20, 0x22, 0x5c] [0x0a] := by
  have hends : EndsWord [0x0a] := by
    intro ch us h
    cases h
    exact Or.inr rfl
  rcases quoting_roundTrip [0x61, 0x20, 0x22, 0x5c] [0x0a] [0x78] (by decide) (by decide) hends
    with ⟨hquoted, hbare⟩
  exact ⟨hquoted, hbare (by decide)⟩

/--
A string in single quotes is read as one token with that value if and only if it has no
backslash before its last byte.
-/
theorem singleQuotes_verbatim_iff (s rest junk : Text) (hs : 0 ∉ s) (hquote : singleQuote ∉ s)
    (hrest : 0 ∉ rest) :
    LexesTo (cString (singleQuoted s ++ rest ++ 0 :: junk)) s rest <-> Unescaped s := by
  have hzero : 0 ∉ singleQuoted s ++ rest := by
    rw [singleQuoted_append]
    simp only [List.mem_cons, List.mem_append, not_or]
    exact ⟨by decide, hs, by decide, hrest⟩
  rw [cString_append _ junk hzero]
  exact lexesTo_singleQuoted hquote

/-- A backslash at the end stays, as in `'a\'`. -/
theorem singleQuotes_verbatim_last :
    LexesTo (cString (singleQuoted [0x61, 0x5c] ++ [0x20] ++ [0])) [0x61, 0x5c] [0x20] := by
  have hiff := singleQuotes_verbatim_iff [0x61, 0x5c] [0x20] [] (by decide) (by decide) (by decide)
  exact hiff.mpr (by decide)

/-- The token `'a\b'` has the value `ab`. -/
theorem singleQuotes_escape :
    LexesTo (cString (singleQuoted [0x61, 0x5c, 0x62] ++ [0])) [0x61, 0x62] [] ∧
      Not (LexesTo (cString (singleQuoted [0x61, 0x5c, 0x62] ++ [0])) [0x61, 0x5c, 0x62] []) := by
  have hscan : scanTok (cString (singleQuoted [0x61, 0x5c, 0x62] ++ [0])) =
      (Peek.string [0x61, 0x5c, 0x62, 0x27] 3, []) := by decide +kernel
  constructor
  · exact ⟨_, hscan, by decide⟩
  · intro hex
    rcases hex with ⟨peek, hpeek, hcopied⟩
    rw [hscan] at hpeek
    cases hpeek
    revert hcopied
    decide

end Forms

end Shell
end NicoOS
