import NicoOS.Lib.Memory
import NicoOS.Shell.Escapes

/-!
# The lexer over the buffer

`scan_tok` of `shell/sh/sh_parser.c` with its loops, on the bytes of a buffer that ends with a
`NUL`.  A loop or a recursion has no result where its rounds are used up; with as many rounds as
there are bytes left it always has one, and that is the one of the lexer on texts.
-/

namespace NicoOS
namespace Shell
namespace Scan

open Lib

inductive TokenType where
  | eof
  | gt
  | gtgt
  | lt
  | lparen
  | rparen
  | semi
  | back
  | and
  | pipe
  | or
  | string
  deriving DecidableEq, Repr

structure TokenAhead where
  type : TokenType
  p : Nat
  len : Int
  deriving DecidableEq, Repr

/-- What `report_error` prints; the character is the one at `peek.p`. -/
inductive Message where
  | unexpected (ch : UInt8)
  | expectedPath
  | missingParen
  | tooManyArguments
  deriving DecidableEq, Repr

/-- The fields of `struct shell_ex` that lexer and parser use, and the messages so far. -/
structure ShellEx where
  p : Nat
  peek : TokenAhead
  messages : List Message
  deriving DecidableEq, Repr

/-!
# The functions
-/

def skipWhitespace (mem : Memory) : Nat -> Nat -> Option Nat
  | 0, _ => none
  | k + 1, p => if Lexer.isWhitespace (mem p) then skipWhitespace mem k (p + 1) else some p

def skipComment (mem : Memory) : Nat -> Nat -> Option Nat
  | 0, _ => none
  | k + 1, p =>
      if mem p ≠ 0 ∧ Lexer.endsComment (mem p) = false then skipComment mem k (p + 1) else some p

def readString (mem : Memory) : Nat -> Nat -> Option Nat
  | 0, _ => none
  | k + 1, p =>
      if mem p ≠ 0 ∧ Lexer.isSymbol (mem p) = false ∧ Lexer.isWhitespace (mem p) = false then
        if mem p = backslash then
          if mem (p + 1) = 0 then some (p + 1) else readString mem k (p + 2)
        else
          readString mem k (p + 1)
      else
        some p

def readStringWithQuotes (mem : Memory) (close : UInt8) : Nat -> Nat -> Option Nat
  | 0, _ => none
  | k + 1, p =>
      if mem p ≠ 0 then
        if mem p = close then some (p + 1)
        else if mem p = backslash ∧ close = doubleQuote then
          if mem (p + 1) = 0 then some (p + 1) else readStringWithQuotes mem close k (p + 2)
        else
          readStringWithQuotes mem close k (p + 1)
      else
        some p

def tokenTo (typ : TokenType) (p : Nat) (sh : ShellEx) : TokenType × ShellEx :=
  (typ, { sh with p := p, peek := { type := typ, p := sh.p, len := (p : Int) - sh.p } })

def doubledTo (mem : Memory) (ch : UInt8) (one two : TokenType) (p : Nat) (sh : ShellEx) :
    TokenType × ShellEx :=
  if mem p = ch then tokenTo two (p + 1) sh else tokenTo one p sh

def scanTok (mem : Memory) : Nat -> ShellEx -> Option (TokenType × ShellEx)
  | 0, _ => none
  | k + 1, sh => do
      let start <- skipWhitespace mem (k + 1) sh.p
      let sh := { sh with p := start }
      let ch := mem start
      let p := start + 1
      if ch = 0 then some (tokenTo TokenType.eof start sh)
      else if ch = 0x3e then some (doubledTo mem ch TokenType.gt TokenType.gtgt p sh)
      else if ch = 0x3c then some (tokenTo TokenType.lt p sh)
      else if ch = 0x28 then some (tokenTo TokenType.lparen p sh)
      else if ch = 0x29 then some (tokenTo TokenType.rparen p sh)
      else if ch = 0x26 then some (doubledTo mem ch TokenType.back TokenType.and p sh)
      else if ch = 0x7c then some (doubledTo mem ch TokenType.pipe TokenType.or p sh)
      else if ch = 0x3b then some (tokenTo TokenType.semi p sh)
      else if ch = Lexer.hash then do
        let p <- skipComment mem (k + 1) p
        scanTok mem k { sh with p := p }
      else if Lexer.isQuote ch then do
        let p <- readStringWithQuotes mem ch (k + 1) p
        -- the quotes are pruned, whether or not there is a closing one
        let peek := { type := TokenType.string, p := start + 1, len := (p : Int) - start - 2 }
        some (TokenType.string, { sh with p := p, peek := peek })
      else do
        let p <- readString mem (k + 1) start
        some (tokenTo TokenType.string p sh)

/-!
# Texts of a buffer
-/

/-- The buffer from `buf` on ends with the first `NUL`, at `stop`. -/
structure Terminated (mem : Memory) (buf stop : Nat) : Prop where
  le : buf ≤ stop
  nul : mem stop = 0
  inside : forall p, buf ≤ p -> p < stop -> mem p ≠ 0

/-- The text from a place of the buffer to the `NUL`. -/
def textAt (mem : Memory) (stop p : Nat) : Text :=
  (List.range (stop - p)).map (fun i => mem (p + i))

section Texts

variable {mem : Memory} {buf stop p q k : Nat}

theorem length_textAt (mem : Memory) (stop p : Nat) : (textAt mem stop p).length = stop - p := by
  unfold textAt
  rw [List.length_map, List.length_range]

theorem textAt_cons (h : p < stop) : textAt mem stop p = mem p :: textAt mem stop (p + 1) := by
  have hlen : stop - p = (stop - (p + 1)) + 1 := by lia
  unfold textAt
  rw [hlen, List.range_succ_eq_map, List.map_cons, List.map_map]
  congr 1
  apply List.map_congr_left
  intro i _
  show mem (p + (i + 1)) = mem (p + 1 + i)
  congr 1
  lia

theorem textAt_stop (mem : Memory) (stop : Nat) : textAt mem stop stop = [] := by
  unfold textAt
  rw [Nat.sub_self]
  rfl

/-- A function has come from `p` to `q`, and the text that is left there is the given one. -/
structure ComesTo (mem : Memory) (stop p q : Nat) (left : Text) : Prop where
  low : p ≤ q
  high : q ≤ stop
  left : textAt mem stop q = left

theorem ComesTo.back {left : Text} (h : ComesTo mem stop (p + 1) q left) :
    ComesTo mem stop p q left where
  low := Nat.le_of_succ_le h.low
  high := h.high
  left := h.left

theorem ComesTo.stay (hp : p ≤ stop) : ComesTo mem stop p p (textAt mem stop p) where
  low := Nat.le_refl p
  high := hp
  left := rfl

/-!
# Loops
-/

theorem skipWhitespace_ends (h : Terminated mem buf stop) (hlow : buf ≤ p) (hp : p ≤ stop)
    (hk : stop - p < k) :
    exists q, skipWhitespace mem k p = some q ∧
      ComesTo mem stop p q (Lexer.skipWhitespace (textAt mem stop p)) := by
  induction k generalizing p with
  | zero => exact absurd hk (Nat.not_lt_zero _)
  | succ k ih =>
      rw [skipWhitespace]
      cases Nat.lt_or_eq_of_le hp with
      | inr hend =>
          have hzero : Lexer.isWhitespace (mem p) = false := by
            rw [hend, h.nul]
            decide
          rw [if_neg (Bool.eq_false_iff.mp hzero), hend, textAt_stop]
          exact ⟨stop, rfl, Nat.le_refl _, Nat.le_refl _, textAt_stop mem stop⟩
      | inl hlt =>
          cases hspace : Lexer.isWhitespace (mem p) with
          | true =>
              rcases ih (Nat.le_succ_of_le hlow) hlt (by lia) with ⟨q, hrun, hcomes⟩
              rw [if_pos rfl, textAt_cons hlt, Lexer.skipWhitespace,
                List.dropWhile_cons_of_pos hspace]
              exact ⟨q, hrun, hcomes.back⟩
          | false =>
              rw [if_neg Bool.false_ne_true, textAt_cons hlt, Lexer.skipWhitespace,
                List.dropWhile_cons_of_neg (Bool.eq_false_iff.mp hspace), <- textAt_cons hlt]
              exact ⟨p, rfl, ComesTo.stay hp⟩

theorem skipComment_ends (h : Terminated mem buf stop) (hlow : buf ≤ p) (hp : p ≤ stop)
    (hk : stop - p < k) :
    exists q, skipComment mem k p = some q ∧
      ComesTo mem stop p q (Lexer.skipComment (textAt mem stop p)) := by
  induction k generalizing p with
  | zero => exact absurd hk (Nat.not_lt_zero _)
  | succ k ih =>
      rw [skipComment]
      cases Nat.lt_or_eq_of_le hp with
      | inr hend =>
          rw [if_neg (fun hgo => hgo.left (hend ▸ h.nul)), hend, textAt_stop]
          exact ⟨stop, rfl, Nat.le_refl _, Nat.le_refl _, textAt_stop mem stop⟩
      | inl hlt =>
          have hne := h.inside p hlow hlt
          cases hends : Lexer.endsComment (mem p) with
          | false =>
              rcases ih (Nat.le_succ_of_le hlow) hlt (by lia) with ⟨q, hrun, hcomes⟩
              rw [if_pos ⟨hne, rfl⟩, textAt_cons hlt, Lexer.skipComment,
                List.dropWhile_cons_of_pos (by rw [hends]; rfl)]
              exact ⟨q, hrun, hcomes.back⟩
          | true =>
              rw [if_neg (fun hgo => nomatch hgo.right), textAt_cons hlt, Lexer.skipComment,
                List.dropWhile_cons_of_neg (by rw [hends]; exact Bool.false_ne_true),
                <- textAt_cons hlt]
              exact ⟨p, rfl, ComesTo.stay hp⟩

theorem readString_ends (h : Terminated mem buf stop) (hlow : buf ≤ p) (hp : p ≤ stop)
    (hk : stop - p < k) :
    exists q, readString mem k p = some q ∧
      ComesTo mem stop p q (Lexer.readString (textAt mem stop p)) := by
  induction k generalizing p with
  | zero => exact absurd hk (Nat.not_lt_zero _)
  | succ k ih =>
      rw [readString]
      cases Nat.lt_or_eq_of_le hp with
      | inr hend =>
          rw [if_neg (fun hgo => hgo.left (hend ▸ h.nul)), hend, textAt_stop]
          exact ⟨stop, rfl, Nat.le_refl _, Nat.le_refl _, textAt_stop mem stop⟩
      | inl hlt =>
          have hne := h.inside p hlow hlt
          cases hspecial : Lexer.isSymbol (mem p) || Lexer.isWhitespace (mem p) with
          | true =>
              have hstop : Not (mem p ≠ 0 ∧ Lexer.isSymbol (mem p) = false ∧
                  Lexer.isWhitespace (mem p) = false) := by
                intro hall
                rcases hall with ⟨-, hsymbol, hspace⟩
                rw [hsymbol, hspace] at hspecial
                cases hspecial
              rw [if_neg hstop, textAt_cons hlt, readString_stop hspecial, <- textAt_cons hlt]
              exact ⟨p, rfl, ComesTo.stay hp⟩
          | false =>
              rw [if_pos ⟨hne, Bool.or_eq_false_iff.mp hspecial⟩, textAt_cons hlt]
              cases Decidable.em (mem p = backslash) with
              | inr hplain =>
                  rcases ih (Nat.le_succ_of_le hlow) hlt (by lia) with
                    ⟨q, hrun, hcomes⟩
                  rw [if_neg hplain, readString_next hspecial hplain]
                  exact ⟨q, hrun, hcomes.back⟩
              | inl hslash =>
                  rw [if_pos hslash, hslash]
                  cases Nat.lt_or_eq_of_le (show p + 1 ≤ stop from hlt) with
                  | inr hend =>
                      -- the backslash is the last byte
                      rw [if_pos (hend ▸ h.nul), hend, textAt_stop]
                      exact ⟨stop, rfl, hp, Nat.le_refl _, textAt_stop mem stop⟩
                  | inl hnext =>
                      rcases ih (p := p + 2) (by lia) hnext (by lia) with
                        ⟨q, hrun, hcomes⟩
                      rw [if_neg (h.inside (p + 1) (Nat.le_succ_of_le hlow) hnext),
                        textAt_cons hnext, readString_escape]
                      exact ⟨q, hrun, hcomes.back.back⟩

theorem readStringWithQuotes_ends {close : UInt8} (h : Terminated mem buf stop) (hlow : buf ≤ p)
    (hp : p ≤ stop) (hk : stop - p < k) :
    exists q, readStringWithQuotes mem close k p = some q ∧
      ComesTo mem stop p q (Lexer.readStringWithQuotes close (textAt mem stop p)) := by
  induction k generalizing p with
  | zero => exact absurd hk (Nat.not_lt_zero _)
  | succ k ih =>
      rw [readStringWithQuotes]
      cases Nat.lt_or_eq_of_le hp with
      | inr hend =>
          rw [if_neg (fun hgo => hgo (hend ▸ h.nul)), hend, textAt_stop]
          exact ⟨stop, rfl, Nat.le_refl _, Nat.le_refl _, textAt_stop mem stop⟩
      | inl hlt =>
          rw [if_pos (h.inside p hlow hlt), textAt_cons hlt]
          cases Decidable.em (mem p = close) with
          | inl hclose =>
              rw [if_pos hclose, hclose, readStringWithQuotes_close]
              exact ⟨p + 1, rfl, Nat.le_succ p, hlt, rfl⟩
          | inr hopen =>
              rw [if_neg hopen]
              cases Decidable.em (mem p = backslash ∧ close = doubleQuote) with
              | inr hplain =>
                  rcases ih (Nat.le_succ_of_le hlow) hlt (by lia) with
                    ⟨q, hrun, hcomes⟩
                  rw [if_neg hplain, readStringWithQuotes_next hopen hplain]
                  exact ⟨q, hrun, hcomes.back⟩
              | inl hescape =>
                  rw [if_pos hescape, hescape.left]
                  cases Nat.lt_or_eq_of_le (show p + 1 ≤ stop from hlt) with
                  | inr hend =>
                      rw [if_pos (hend ▸ h.nul), hend, textAt_stop]
                      exact ⟨stop, rfl, hp, Nat.le_refl _, textAt_stop mem stop⟩
                  | inl hnext =>
                      rcases ih (p := p + 2) (by lia) hnext (by lia) with
                        ⟨q, hrun, hcomes⟩
                      rw [if_neg (h.inside (p + 1) (Nat.le_succ_of_le hlow) hnext),
                        textAt_cons hnext, hescape.right, readStringWithQuotes_escape]
                      rw [hescape.right] at hrun hcomes
                      exact ⟨q, hrun, hcomes.back.back⟩

end Texts

/-!
# Tokens
-/

def typeOf : Token -> TokenType
  | Token.gt => TokenType.gt
  | Token.gtgt => TokenType.gtgt
  | Token.lt => TokenType.lt
  | Token.lparen => TokenType.lparen
  | Token.rparen => TokenType.rparen
  | Token.back => TokenType.back
  | Token.and => TokenType.and
  | Token.pipe => TokenType.pipe
  | Token.or => TokenType.or
  | Token.semi => TokenType.semi
  | Token.string _ => TokenType.string

/-- The token ahead is the one of the lexer on texts. -/
def Shows (mem : Memory) (stop : Nat) (t : TokenAhead) : Lexer.Peek -> Prop
  | Lexer.Peek.eof => t.type = TokenType.eof
  | Lexer.Peek.operator tok => t.type = typeOf tok
  | Lexer.Peek.string text len =>
      t.type = TokenType.string ∧ textAt mem stop t.p = text ∧ t.len = len

/-- What `scan_tok` has read where a token begins. -/
structure TokenRead (mem : Memory) (stop start : Nat) (r : TokenType × ShellEx)
    (t : Lexer.Peek × Text) (messages : List Message) : Prop where
  type : r.2.peek.type = r.1
  notEof : r.1 ≠ TokenType.eof
  low : start < r.2.p
  high : r.2.p ≤ stop
  shows : Shows mem stop r.2.peek t.1
  left : textAt mem stop r.2.p = t.2
  messages : r.2.messages = messages

section Tokens

variable {mem : Memory} {buf stop start p q k : Nat} {sh : ShellEx}

theorem typeOf_ne_eof (tok : Token) : typeOf tok ≠ TokenType.eof := by
  cases tok <;> exact fun h => nomatch h

theorem tokenRead_operator (tok : Token) (hlow : start < p) (hhigh : p ≤ stop) :
    TokenRead mem stop start (tokenTo (typeOf tok) p sh)
      (Lexer.Peek.operator tok, textAt mem stop p) sh.messages where
  type := rfl
  notEof := typeOf_ne_eof tok
  low := hlow
  high := hhigh
  shows := rfl
  left := rfl
  messages := rfl

theorem tokenRead_doubled {ch : UInt8} (one two : Token) (h : Terminated mem buf stop)
    (hch : ch ≠ 0) (hlt : start < stop) :
    TokenRead mem stop start (doubledTo mem ch (typeOf one) (typeOf two) (start + 1) sh)
      (Lexer.doubled ch one two (textAt mem stop (start + 1))) sh.messages := by
  unfold doubledTo
  cases Nat.lt_or_eq_of_le (show start + 1 ≤ stop from hlt) with
  | inr hend =>
      have hne : Not (mem (start + 1) = ch) := by
        rw [hend, h.nul]
        exact Ne.symm hch
      have hread : TokenRead mem stop start (tokenTo (typeOf one) (start + 1) sh)
          (Lexer.Peek.operator one, textAt mem stop (start + 1)) sh.messages :=
        tokenRead_operator one (Nat.lt_succ_self start) hlt
      have htext : textAt mem stop (start + 1) = [] := by
        rw [hend]
        exact textAt_stop mem stop
      rw [htext] at hread ⊢
      rw [if_neg hne]
      exact hread
  | inl hnext =>
      rw [textAt_cons hnext, Lexer.doubled]
      cases Decidable.em (mem (start + 1) = ch) with
      | inl hsame =>
          rw [if_pos hsame, if_pos hsame]
          exact tokenRead_operator two (by lia) hnext
      | inr hne =>
          rw [if_neg hne, if_neg hne, <- textAt_cons hnext]
          exact tokenRead_operator one (Nat.lt_succ_self start) hlt

theorem tokenRead_quoted {left : Text} (hlt : start < stop)
    (hcomes : ComesTo mem stop (start + 1) q left) :
    TokenRead mem stop start
      (TokenType.string,
        { sh with p := q, peek := ⟨TokenType.string, start + 1, (q : Int) - start - 2⟩ })
      (Lexer.Peek.string (textAt mem stop (start + 1))
        (((mem start :: textAt mem stop (start + 1)).length : Int) - left.length - 2), left)
      sh.messages where
  type := rfl
  notEof := fun h => nomatch h
  low := hcomes.low
  high := hcomes.high
  shows := by
    have hlow := hcomes.low
    have hhigh := hcomes.high
    refine ⟨rfl, rfl, ?_⟩
    rw [<- hcomes.left, List.length_cons, length_textAt, length_textAt]
    lia
  left := hcomes.left
  messages := rfl

theorem tokenRead_word {left : Text} (hlt : start < stop)
    (hcomes : ComesTo mem stop start q left) (hp : sh.p = start) (hq : start < q) :
    TokenRead mem stop start (tokenTo TokenType.string q sh)
      (Lexer.Peek.string (textAt mem stop start)
        (((textAt mem stop start).length : Int) - left.length), left) sh.messages where
  type := rfl
  notEof := fun h => nomatch h
  low := hq
  high := hcomes.high
  shows := by
    have hhigh := hcomes.high
    refine ⟨rfl, ?_, ?_⟩
    · show textAt mem stop sh.p = _
      rw [hp]
    · show (q : Int) - sh.p = _
      rw [hp, <- hcomes.left, length_textAt, length_textAt]
      lia
  left := hcomes.left
  messages := rfl

/-- The bytes at which `scan_tok` reads a token itself. -/
theorem scanTok_switch (h : Terminated mem buf stop) (hlow : buf ≤ start) (hlt : start < stop)
    (hk : stop - start < k + 1) (hhash : mem start ≠ Lexer.hash)
    (hblank : Lexer.isWhitespace (mem start) = false)
    (hrun : skipWhitespace mem (k + 1) sh.p = some start) :
    exists r, scanTok mem (k + 1) sh = some r ∧
      TokenRead mem stop start r (Lexer.scanAt (textAt mem stop start)) sh.messages := by
  have hne := h.inside start hlow hlt
  have hnext := Nat.lt_succ_self start
  unfold scanTok
  rw [hrun]
  simp only [Option.bind_eq_bind, Option.bind_some]
  rw [if_neg hne, textAt_cons hlt]
  unfold Lexer.scanAt
  dsimp only
  rcases Decidable.em (mem start = 0x3e) with hgt | hgt
  · rw [if_pos hgt, if_pos hgt]
    exact ⟨_, rfl, tokenRead_doubled Token.gt Token.gtgt h hne hlt⟩
  rw [if_neg hgt, if_neg hgt]
  rcases Decidable.em (mem start = 0x3c) with hless | hless
  · rw [if_pos hless, if_pos hless]
    exact ⟨_, rfl, tokenRead_operator Token.lt hnext hlt⟩
  rw [if_neg hless, if_neg hless]
  rcases Decidable.em (mem start = 0x28) with hleft | hleft
  · rw [if_pos hleft, if_pos hleft]
    exact ⟨_, rfl, tokenRead_operator Token.lparen hnext hlt⟩
  rw [if_neg hleft, if_neg hleft]
  rcases Decidable.em (mem start = 0x29) with hright | hright
  · rw [if_pos hright, if_pos hright]
    exact ⟨_, rfl, tokenRead_operator Token.rparen hnext hlt⟩
  rw [if_neg hright, if_neg hright]
  rcases Decidable.em (mem start = 0x26) with hand | hand
  · rw [if_pos hand, if_pos hand]
    exact ⟨_, rfl, tokenRead_doubled Token.back Token.and h hne hlt⟩
  rw [if_neg hand, if_neg hand]
  rcases Decidable.em (mem start = 0x7c) with hpipe | hpipe
  · rw [if_pos hpipe, if_pos hpipe]
    exact ⟨_, rfl, tokenRead_doubled Token.pipe Token.or h hne hlt⟩
  rw [if_neg hpipe, if_neg hpipe]
  rcases Decidable.em (mem start = 0x3b) with hsemi | hsemi
  · rw [if_pos hsemi, if_pos hsemi]
    exact ⟨_, rfl, tokenRead_operator Token.semi hnext hlt⟩
  rw [if_neg hsemi, if_neg hsemi, if_neg hhash]
  rcases Decidable.em (Lexer.isQuote (mem start) = true) with hquote | hquote
  · have hends : exists q,
        readStringWithQuotes mem (mem start) (k + 1) (start + 1) = some q ∧ _ :=
      readStringWithQuotes_ends h (Nat.le_succ_of_le hlow) hlt (by lia)
    rcases hends with ⟨q, hquoted, hcomes⟩
    rw [if_pos hquote, if_pos hquote, hquoted]
    exact ⟨_, rfl, tokenRead_quoted hlt hcomes⟩
  · have hword : Lexer.isSymbol (mem start) = false := by
      simp [Lexer.isSymbol, hgt, hless, hleft, hright, hand, hpipe, hsemi]
    rcases readString_ends h hlow (Nat.le_of_lt hlt) hk with ⟨q, hread, hcomes⟩
    have hshort := (Lexer.passed_word (p := textAt mem stop (start + 1)) hword hblank
      (Bool.eq_false_iff.mpr hquote) hhash).suffix.length_le
    have hq : start < q := by
      have hlen := congrArg List.length hcomes.left
      rw [length_textAt, textAt_cons hlt] at hlen
      rw [length_textAt] at hshort
      have hhigh := hcomes.high
      dsimp only at hshort
      lia
    rw [if_neg hquote, if_neg hquote, hread, <- textAt_cons hlt]
    exact ⟨_, rfl, tokenRead_word hlt hcomes rfl hq⟩

/-!
# Comments
-/

theorem tokenStart_enough {j : Nat} : forall (k : Nat) (p : Text), p.length < j -> p.length < k ->
    Lexer.tokenStart j p = Lexer.tokenStart k p := by
  induction j with
  | zero => exact fun k p hj => absurd hj (Nat.not_lt_zero _)
  | succ j ih =>
      intro k p hj hk
      cases k with
      | zero => exact absurd hk (Nat.not_lt_zero _)
      | succ k =>
          have hsuffix : Lexer.skipWhitespace p <:+ p := List.dropWhile_suffix _
          rw [Lexer.tokenStart, Lexer.tokenStart]
          cases hskip : Lexer.skipWhitespace p with
          | nil => rfl
          | cons ch rest =>
              dsimp only
              split
              · have hcomment : Lexer.skipComment rest <:+ rest := List.dropWhile_suffix _
                have hlen := hsuffix.length_le
                have hshort := hcomment.length_le
                rw [hskip, List.length_cons] at hlen
                exact ih k _ (by lia) (by lia)
              · rfl

theorem scanTok_comment {p rest : Text} (h : Lexer.skipWhitespace p = Lexer.hash :: rest) :
    Shell.scanTok p = Shell.scanTok (Lexer.skipComment rest) := by
  have hsuffix : Lexer.skipWhitespace p <:+ p := List.dropWhile_suffix _
  have hcomment : Lexer.skipComment rest <:+ rest := List.dropWhile_suffix _
  have hlen := hsuffix.length_le
  have hshort := hcomment.length_le
  rw [h, List.length_cons] at hlen
  unfold Shell.scanTok
  rw [Lexer.tokenStart, h]
  dsimp only
  rw [if_pos rfl, tokenStart_enough _ _ (by lia) (Nat.lt_succ_self _)]

theorem scanTok_here {p rest : Text} {ch : UInt8} (h : Lexer.skipWhitespace p = ch :: rest)
    (hhash : ch ≠ Lexer.hash) : Shell.scanTok p = Lexer.scanAt (ch :: rest) := by
  unfold Shell.scanTok
  rw [Lexer.tokenStart, h]
  dsimp only
  rw [if_neg hhash]

theorem scanTok_nothing {p : Text} (h : Lexer.skipWhitespace p = []) :
    Shell.scanTok p = (Lexer.Peek.eof, []) := by
  unfold Shell.scanTok
  rw [Lexer.tokenStart, h]
  rfl

/-- What a call of `scan_tok` does: it goes ahead, and stands at the `NUL` behind `TOKEN_EOF`. -/
structure Scanned (mem : Memory) (stop : Nat) (sh : ShellEx) (r : TokenType × ShellEx) : Prop where
  type : r.2.peek.type = r.1
  low : sh.p ≤ r.2.p
  high : r.2.p ≤ stop
  progress : r.1 ≠ TokenType.eof -> sh.p < r.2.p
  eof : r.1 = TokenType.eof -> r.2.p = stop
  shows : Shows mem stop r.2.peek (Shell.scanTok (textAt mem stop sh.p)).1
  left : textAt mem stop r.2.p = (Shell.scanTok (textAt mem stop sh.p)).2
  messages : r.2.messages = sh.messages

theorem TokenRead.scanned {r : TokenType × ShellEx}
    (h : TokenRead mem stop start r (Shell.scanTok (textAt mem stop sh.p)) sh.messages)
    (hp : sh.p ≤ start) : Scanned mem stop sh r where
  type := h.type
  low := Nat.le_trans hp (Nat.le_of_lt h.low)
  high := h.high
  progress _ := Nat.lt_of_le_of_lt hp h.low
  eof heof := absurd heof h.notEof
  shows := h.shows
  left := h.left
  messages := h.messages

/-- Behind a comment nothing is lost: the token of the rest is the token. -/
theorem Scanned.behind {r : TokenType × ShellEx} {ahead : ShellEx}
    (h : Scanned mem stop ahead r) (hp : sh.p ≤ ahead.p) (hmessages : ahead.messages = sh.messages)
    (hsame : Shell.scanTok (textAt mem stop sh.p) = Shell.scanTok (textAt mem stop ahead.p)) :
    Scanned mem stop sh r where
  type := h.type
  low := Nat.le_trans hp h.low
  high := h.high
  progress hne := Nat.lt_of_le_of_lt hp (h.progress hne)
  eof := h.eof
  shows := hsame ▸ h.shows
  left := hsame ▸ h.left
  messages := h.messages.trans hmessages

theorem scanTok_eof (h : Terminated mem buf stop)
    (hskip : skipWhitespace mem (k + 1) sh.p = some stop)
    (hcomes : ComesTo mem stop sh.p stop (Lexer.skipWhitespace (textAt mem stop sh.p))) :
    exists r, scanTok mem (k + 1) sh = some r ∧ Scanned mem stop sh r := by
  have hnothing := hcomes.left
  rw [textAt_stop] at hnothing
  refine ⟨tokenTo TokenType.eof stop { sh with p := stop }, ?_, ?_⟩
  · rw [scanTok, hskip]
    simp only [Option.bind_eq_bind, Option.bind_some]
    rw [if_pos h.nul]
  · constructor
    · rfl
    · exact hcomes.low
    · exact hcomes.high
    · exact fun hne => absurd rfl hne
    · exact fun _ => rfl
    · rw [scanTok_nothing hnothing.symm]
      rfl
    · rw [scanTok_nothing hnothing.symm]
      exact textAt_stop mem stop
    · rfl

theorem scanTok_hash (hskip : skipWhitespace mem (k + 1) sh.p = some start)
    (hhash : mem start = Lexer.hash) (hcomment : skipComment mem (k + 1) (start + 1) = some q) :
    scanTok mem (k + 1) sh = scanTok mem k { sh with p := q } := by
  rw [scanTok, hskip]
  simp only [Option.bind_eq_bind, Option.bind_some]
  rw [hhash, hcomment, if_neg (by decide), if_neg (by decide), if_neg (by decide),
    if_neg (by decide), if_neg (by decide), if_neg (by decide), if_neg (by decide),
    if_neg (by decide), if_pos rfl]
  rfl

/-- A call of `scan_tok` ends, whatever the buffer holds. -/
theorem scanTok_scanned (h : Terminated mem buf stop) (hlow : buf ≤ sh.p) (hp : sh.p ≤ stop)
    (hk : stop - sh.p < k) : exists r, scanTok mem k sh = some r ∧ Scanned mem stop sh r := by
  induction k generalizing sh with
  | zero => exact absurd hk (Nat.not_lt_zero _)
  | succ k ih =>
      rcases skipWhitespace_ends h hlow hp hk with ⟨start, hskip, hcomes⟩
      have hpstart := hcomes.low
      have hbuf := Nat.le_trans hlow hpstart
      cases Nat.lt_or_eq_of_le hcomes.high with
      | inr hend =>
          rw [hend] at hskip hcomes
          exact scanTok_eof h hskip hcomes
      | inl hlt =>
          have hhead : Lexer.skipWhitespace (textAt mem stop sh.p) =
              mem start :: textAt mem stop (start + 1) := by
            rw [<- hcomes.left, textAt_cons hlt]
          cases Decidable.em (mem start = Lexer.hash) with
          | inr hhash =>
              have hblank : Lexer.isWhitespace (mem start) = false := by
                have hnot := List.head?_dropWhile_not Lexer.isWhitespace (textAt mem stop sh.p)
                rw [show (textAt mem stop sh.p).dropWhile Lexer.isWhitespace = _ from hhead] at hnot
                exact hnot
              rcases scanTok_switch h hbuf hlt (by lia) hhash hblank hskip with ⟨r, hrun, hread⟩
              refine ⟨r, hrun, ?_⟩
              apply TokenRead.scanned _ hpstart
              rw [scanTok_here hhead hhash, <- textAt_cons hlt]
              exact hread
          | inl hhash =>
              rcases skipComment_ends (k := k + 1) h (Nat.le_succ_of_le hbuf) hlt (by lia) with
                ⟨q, hcomment, hbehind⟩
              have hq := hbehind.low
              rcases @ih { sh with p := q } (Nat.le_trans hbuf (Nat.le_of_lt hq)) hbehind.high
                (by dsimp only; lia) with ⟨r, hrun, hscanned⟩
              refine ⟨r, (scanTok_hash hskip hhash hcomment).trans hrun, ?_⟩
              have hsame :
                  Shell.scanTok (textAt mem stop sh.p) = Shell.scanTok (textAt mem stop q) := by
                rw [hhash] at hhead
                rw [scanTok_comment hhead]
                exact congrArg Shell.scanTok hbehind.left.symm
              exact hscanned.behind (Nat.le_trans hpstart (Nat.le_of_lt hq)) rfl hsame

end Tokens

end Scan
end Shell
end NicoOS
