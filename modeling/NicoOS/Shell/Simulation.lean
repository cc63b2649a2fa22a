import NicoOS.Shell.TokenSource

/-!
# Two sources of tokens

Where each call on one source is one on the other, the parsers over them come to the same
commands.
-/

namespace NicoOS
namespace Shell

/-- What the first source does, the second does too. -/
structure TokenSource.Simulates {σ τ : Type} (src : TokenSource σ) (tgt : TokenSource τ)
    (rel : σ -> τ -> Prop) : Prop where
  peek : forall a b, rel a b -> src.peek a = tgt.peek b
  advance : forall a b, rel a b -> src.peek a ≠ Scan.TokenType.eof -> forall a',
    src.advance a = some a' -> exists b', tgt.advance b = some b' ∧ rel a' b'
  copyPeekString : forall a b, rel a b -> src.peek a = Scan.TokenType.string -> forall text,
    src.copyPeekString a = some text -> tgt.copyPeekString b = some text
  reportError : forall c a b, rel a b -> rel (src.reportError c a) (tgt.reportError c b)

namespace TokenSource

/-- Where the first comes to a result, the second comes to the same. -/
def Follows {σ τ : Type} (rel : σ -> τ -> Prop) (r : Option (Option Cmd × σ))
    (r' : Option (Option Cmd × τ)) : Prop :=
  forall value a, r = some (value, a) -> exists b, r' = some (value, b) ∧ rel a b

section Simulation

variable {σ τ : Type} {src : TokenSource σ} {tgt : TokenSource τ} {rel : σ -> τ -> Prop}
  {a : σ} {b : τ} {k m : Nat}

theorem follows_some (value : Option Cmd) (h : rel a b) :
    Follows rel (some (value, a)) (some (value, b)) := by
  intro value' a' heq
  cases heq
  exact ⟨b, rfl, h⟩

theorem follows_none {r : Option (Option Cmd × τ)} : Follows rel none r := by
  intro value a heq
  cases heq

theorem Follows.bind {r : Option (Option Cmd × σ)} {r' : Option (Option Cmd × τ)}
    {f : Option Cmd × σ -> Option (Option Cmd × σ)} {g : Option Cmd × τ -> Option (Option Cmd × τ)}
    (h : Follows rel r r')
    (hfg : forall value a b, rel a b -> Follows rel (f (value, a)) (g (value, b))) :
    Follows rel (r.bind f) (r'.bind g) := by
  cases r with
  | none => exact follows_none
  | some x =>
      rcases h x.1 x.2 rfl with ⟨b, hb, hrel⟩
      rw [hb]
      exact hfg x.1 x.2 b hrel

theorem Simulates.follows_advance (h : src.Simulates tgt rel) (hrel : rel a b)
    (hpeek : src.peek a ≠ Scan.TokenType.eof) {f : σ -> Option (Option Cmd × σ)}
    {g : τ -> Option (Option Cmd × τ)}
    (hfg : forall a' b', rel a' b' -> Follows rel (f a') (g b')) :
    Follows rel ((src.advance a).bind f) ((tgt.advance b).bind g) := by
  cases hadvance : src.advance a with
  | none => exact follows_none
  | some a' =>
      rcases h.advance a b hrel hpeek a' hadvance with ⟨b', hb, hrel'⟩
      rw [hb]
      exact hfg a' b' hrel'

theorem Simulates.follows_copy (h : src.Simulates tgt rel) (hrel : rel a b)
    (hpeek : src.peek a = Scan.TokenType.string) {f : Text -> Option (Option Cmd × σ)}
    {g : Text -> Option (Option Cmd × τ)} (hfg : forall text, Follows rel (f text) (g text)) :
    Follows rel ((src.copyPeekString a).bind f) ((tgt.copyPeekString b).bind g) := by
  cases hcopy : src.copyPeekString a with
  | none => exact follows_none
  | some text =>
      rw [h.copyPeekString a b hrel hpeek text hcopy]
      exact hfg text

theorem Simulates.follows_report (h : src.Simulates tgt rel) (c : Complaint) (hrel : rel a b) :
    Follows rel (some (none, src.reportError c a)) (some (none, tgt.reportError c b)) :=
  follows_some none (h.reportError c a b hrel)

theorem Simulates.parseRedircmd (h : src.Simulates tgt rel) (cmd : Cmd) (optok : Scan.TokenType)
    (hrel : rel a b) :
    Follows rel (src.parseRedircmd cmd optok a) (tgt.parseRedircmd cmd optok b) := by
  unfold TokenSource.parseRedircmd
  rw [← h.peek a b hrel]
  split
  · rename_i hstring
    cases redirection optok with
    | none => exact follows_none
    | some target =>
        apply h.follows_copy hrel hstring
        intro text
        apply h.follows_advance hrel (hstring.trans_ne (by decide))
        intro a' b' hrel'
        exact follows_some _ hrel'
  · exact h.follows_report _ hrel

theorem Simulates.redirFrom (h : src.Simulates tgt rel) (k : Nat) :
    forall (m : Nat) (cmd : Cmd) (a : σ) (b : τ), k ≤ m -> rel a b ->
      Follows rel (src.redirFrom k cmd a) (tgt.redirFrom m cmd b) := by
  induction k with
  | zero => exact fun _ _ _ _ _ _ => follows_none
  | succ k ih =>
      intro m cmd a b hle hrel
      cases m with
      | zero => exact absurd hle (Nat.not_succ_le_zero k)
      | succ m =>
          rw [TokenSource.redirFrom, TokenSource.redirFrom, ← h.peek a b hrel]
          split
          · rename_i hredir
            apply h.follows_advance hrel (ne_eof_of hredir rfl)
            intro a' b' hrel'
            apply (h.parseRedircmd cmd (src.peek a) hrel').bind
            intro value a'' b'' hrel''
            cases value with
            | none => exact follows_some none hrel''
            | some cmd => exact ih m cmd a'' b'' (Nat.le_of_succ_le_succ hle) hrel''
          · exact follows_some _ hrel

theorem Simulates.execFrom (h : src.Simulates tgt rel) (k : Nat) :
    forall (m : Nat) (argv : List Text) (a : σ) (b : τ), k ≤ m -> rel a b ->
      src.peek a = Scan.TokenType.string ->
      Follows rel (src.execFrom k argv a) (tgt.execFrom m argv b) := by
  induction k with
  | zero => exact fun _ _ _ _ _ _ _ => follows_none
  | succ k ih =>
      intro m argv a b hle hrel hpeek
      cases m with
      | zero => exact absurd hle (Nat.not_succ_le_zero k)
      | succ m =>
          rw [TokenSource.execFrom, TokenSource.execFrom]
          split
          · exact h.follows_report _ hrel
          · apply h.follows_copy hrel hpeek
            intro arg
            apply h.follows_advance hrel (hpeek.trans_ne (by decide))
            intro a' b' hrel'
            rw [← h.peek a' b' hrel']
            split
            · rename_i hstring
              exact ih m _ a' b' (Nat.le_of_succ_le_succ hle) hrel' hstring
            · exact follows_some _ hrel'

/-- With at least as many rounds, the second parser follows the first. -/
def AllFollow (src : TokenSource σ) (tgt : TokenSource τ) (rel : σ -> τ -> Prop) (k : Nat) : Prop :=
  forall (nt : NonTerminal) (m : Nat) (a : σ) (b : τ), k ≤ m -> rel a b ->
    Follows rel (src.parse nt k a) (tgt.parse nt m b)

theorem Simulates.follows_cmd (h : src.Simulates tgt rel) (hall : AllFollow src tgt rel k)
    (hle : k ≤ m) (hrel : rel a b) :
    Follows rel (src.parseCmd (k + 1) a) (tgt.parseCmd (m + 1) b) := by
  rw [parseCmd, parseCmd, ← h.peek a b hrel]
  split
  · exact hall NonTerminal.list m a b hle hrel
  · exact follows_some none hrel

theorem Simulates.follows_list (h : src.Simulates tgt rel) (hall : AllFollow src tgt rel k)
    (hle : k ≤ m) (hrel : rel a b) :
    Follows rel (src.parseList (k + 1) a) (tgt.parseList (m + 1) b) := by
  rw [parseList, parseList]
  apply (hall NonTerminal.binary m a b hle hrel).bind
  intro value a' b' hrel'
  cases value with
  | none => exact follows_some none hrel'
  | some left =>
      dsimp only
      rw [← h.peek a' b' hrel']
      split
      · rename_i hlist
        apply h.follows_advance hrel' (ne_eof_of hlist rfl)
        intro a'' b'' hrel''
        apply (hall NonTerminal.cmd m a'' b'' hle hrel'').bind
        intro right a3 b3 hrel3
        cases right with
        | none => exact follows_some _ hrel3
        | some right => exact follows_some _ hrel3
      · exact follows_some _ hrel'

theorem Simulates.follows_binary (h : src.Simulates tgt rel) (hall : AllFollow src tgt rel k)
    (hle : k ≤ m) (hrel : rel a b) :
    Follows rel (src.parseBinary (k + 1) a) (tgt.parseBinary (m + 1) b) := by
  rw [parseBinary, parseBinary]
  apply (hall NonTerminal.redir m a b hle hrel).bind
  intro value a' b' hrel'
  cases value with
  | none => exact follows_some none hrel'
  | some left =>
      dsimp only
      rw [← h.peek a' b' hrel']
      split
      · rename_i hbinary
        apply h.follows_advance hrel' (ne_eof_of hbinary rfl)
        intro a'' b'' hrel''
        apply (hall NonTerminal.binary m a'' b'' hle hrel'').bind
        intro right a3 b3 hrel3
        cases right with
        | none => exact follows_some none hrel3
        | some right => exact follows_some _ hrel3
      · exact follows_some _ hrel'

theorem Simulates.follows_redir (h : src.Simulates tgt rel) (hall : AllFollow src tgt rel k)
    (hle : k ≤ m) (hrel : rel a b) :
    Follows rel (src.parseRedir (k + 1) a) (tgt.parseRedir (m + 1) b) := by
  rw [parseRedir, parseRedir]
  apply (hall NonTerminal.primary m a b hle hrel).bind
  intro value a' b' hrel'
  cases value with
  | none => exact follows_some none hrel'
  | some cmd => exact h.redirFrom k m cmd a' b' hle hrel'

theorem Simulates.follows_primary (h : src.Simulates tgt rel) (hall : AllFollow src tgt rel k)
    (hle : k ≤ m) (hrel : rel a b) :
    Follows rel (src.parsePrimary (k + 1) a) (tgt.parsePrimary (m + 1) b) := by
  rw [parsePrimary, parsePrimary, ← h.peek a b hrel]
  split
  · rename_i hparen
    apply h.follows_advance hrel (hparen.trans_ne (by decide))
    intro a' b' hrel'
    apply (hall NonTerminal.cmd m a' b' hle hrel').bind
    intro value a'' b'' hrel''
    dsimp only
    rw [← h.peek a'' b'' hrel'']
    split
    · rename_i hclose
      apply h.follows_advance hrel'' (hclose.trans_ne (by decide))
      intro a3 b3 hrel3
      exact follows_some value hrel3
    · exact h.follows_report _ hrel''
  · split
    · rename_i hstring
      exact h.execFrom k m [] a b hle hrel hstring
    · exact h.follows_report _ hrel

theorem Simulates.allFollow (h : src.Simulates tgt rel) (k : Nat) : AllFollow src tgt rel k := by
  induction k with
  | zero =>
      intro nt m a b _ _
      cases nt with
      | cmd => exact follows_none
      | list => exact follows_none
      | binary => exact follows_none
      | redir => exact follows_none
      | primary => exact follows_none
  | succ k ih =>
      intro nt m a b hle hrel
      cases m with
      | zero => exact absurd hle (Nat.not_succ_le_zero k)
      | succ m =>
          have hle' := Nat.le_of_succ_le_succ hle
          cases nt with
          | cmd => exact h.follows_cmd ih hle' hrel
          | list => exact h.follows_list ih hle' hrel
          | binary => exact h.follows_binary ih hle' hrel
          | redir => exact h.follows_redir ih hle' hrel
          | primary => exact h.follows_primary ih hle' hrel

theorem Simulates.parseAll (h : src.Simulates tgt rel) (hle : k ≤ m) (hrel : rel a b) :
    Follows rel (src.parseAll k a) (tgt.parseAll m b) := by
  unfold TokenSource.parseAll
  apply (h.allFollow k NonTerminal.cmd m a b hle hrel).bind
  intro value a' b' hrel'
  cases value with
  | none => exact follows_some none hrel'
  | some cmd =>
      dsimp only
      rw [← h.peek a' b' hrel']
      split
      · exact follows_some _ hrel'
      · exact h.follows_report _ hrel'

end Simulation

end TokenSource

end Shell
end NicoOS
