import Mathlib.Data.List.Count
import Mathlib.Data.List.Infix
import Mathlib.Tactic

set_option autoImplicit false

/-! # Glob patterns

The patterns of the crate `glob` that have no `**`, as its documentation describes them: `?` stands
for any character, `*` for any sequence of characters, `[..]` for a character of the set, which may
have ranges, and `[!..]` for one that is not in it. A closing bracket that comes first belongs to
the set. By default a wildcard may stand for a slash.

`MatchesWith` counts the slashes that wildcards stand for, and `count_slash_eq_iff` compares the
slashes of a pattern and of a text with that number.
-/

namespace GlobPattern

/-! ## Tokens -/

inductive Token where
  | char (c : Char)
  | anyChar
  | anySequence
  | anyWithin (set : List Char)
  | anyExcept (set : List Char)
  deriving DecidableEq, Repr

/-- Where a scan of the pattern stands. -/
inductive Scan where
  | outside
  /-- Behind `[`. -/
  | opened
  /-- Behind `[!`. -/
  | negated
  /-- In the set, whose last character comes first. -/
  | inside (except : Bool) (set : List Char)

def bracket (except : Bool) (set : List Char) : Token :=
  if except then .anyExcept set else .anyWithin set

/-- The tokens of a pattern; a bracket that is not closed is an error. -/
def tokens : Scan → List Char → Option (List Token)
  | .outside, [] => some []
  | .outside, c :: cs =>
      if c = '?' then (tokens .outside cs).map (.anyChar :: ·)
      else if c = '*' then (tokens .outside cs).map (.anySequence :: ·)
      else if c = '[' then tokens .opened cs
      else (tokens .outside cs).map (.char c :: ·)
  | .opened, c :: cs =>
      if c = '!' then tokens .negated cs else tokens (.inside false [c]) cs
  | .negated, c :: cs => tokens (.inside true [c]) cs
  | .inside except set, c :: cs =>
      if c = ']' then (tokens .outside cs).map (bracket except set.reverse :: ·)
      else tokens (.inside except (c :: set)) cs
  | _, [] => none

def compile (pattern : String) : Option (List Token) := tokens .outside pattern.toList

/-! ## Matching -/

/-- The characters of a set, with its ranges. -/
def inSet : List Char → Char → Bool
  | a :: '-' :: b :: set, c => (a ≤ c && c ≤ b) || inSet set c
  | a :: set, c => a = c || inSet set c
  | [], _ => false

/-- A token for one character stands for this one. -/
def Token.accepts : Token → Char → Bool
  | .char a, c => a = c
  | .anyChar, _ => true
  | .anySequence, _ => false
  | .anyWithin set, c => inSet set c
  | .anyExcept set, c => !inSet set c

def matchTokens : List Token → List Char → Bool
  | [], s => s.isEmpty
  | .anySequence :: ts, s => s.tails.any (matchTokens ts)
  | _ :: _, [] => false
  | tok :: ts, c :: s => tok.accepts c && matchTokens ts s

def Token.isChar : Token → Bool
  | .char _ => true
  | _ => false

/-- The text is matched in a way in which the wildcards stand for `n` slashes in all. -/
inductive MatchesWith : List Token → List Char → Nat → Prop where
  | nil : MatchesWith [] [] 0
  | char (c : Char) {ts : List Token} {s : List Char} {n : Nat} (h : MatchesWith ts s n) :
      MatchesWith (.char c :: ts) (c :: s) n
  | one {tok : Token} {c : Char} {ts : List Token} {s : List Char} {n : Nat}
      (hwild : tok.isChar = false) (haccepts : tok.accepts c = true) (h : MatchesWith ts s n) :
      MatchesWith (tok :: ts) (c :: s) ([c].count '/' + n)
  | sequence (w : List Char) {ts : List Token} {s : List Char} {n : Nat}
      (h : MatchesWith ts s n) : MatchesWith (.anySequence :: ts) (w ++ s) (w.count '/' + n)

theorem matchTokens_cons {tok : Token} (htok : tok ≠ .anySequence) (ts : List Token)
    (s : List Char) :
    matchTokens (tok :: ts) s = true ↔
      ∃ c s', s = c :: s' ∧ tok.accepts c = true ∧ matchTokens ts s' = true := by
  cases s with
  | nil => cases tok <;> simp_all [matchTokens]
  | cons c s' => cases tok <;> simp_all [matchTokens]

/-- **The matcher** finds a way to match if there is one. -/
theorem matchTokens_iff (ts : List Token) :
    ∀ s, matchTokens ts s = true ↔ ∃ n, MatchesWith ts s n := by
  induction ts with
  | nil =>
      intro s
      cases s with
      | nil => exact ⟨fun _ => ⟨0, .nil⟩, fun _ => rfl⟩
      | cons c s =>
          constructor
          · intro h
            cases h
          · rintro ⟨n, h⟩
            cases h
  | cons tok ts ih =>
      intro s
      by_cases htok : tok = .anySequence
      · subst htok
        simp only [matchTokens, List.any_eq_true, List.mem_tails]
        constructor
        · rintro ⟨s', ⟨w, rfl⟩, h⟩
          obtain ⟨n, hn⟩ := (ih s').mp h
          exact ⟨_, .sequence w hn⟩
        · rintro ⟨n, h⟩
          cases h with
          | one hwild haccepts h => cases haccepts
          | sequence w h => exact ⟨_, List.suffix_append w _, (ih _).mpr ⟨_, h⟩⟩
      · rw [matchTokens_cons htok]
        constructor
        · rintro ⟨c, s', rfl, haccepts, h⟩
          obtain ⟨n, hn⟩ := (ih s').mp h
          by_cases hwild : tok.isChar = false
          · exact ⟨_, .one hwild haccepts hn⟩
          · cases tok with
            | char a =>
                obtain rfl : a = c := by simpa [Token.accepts] using haccepts
                exact ⟨n, .char a hn⟩
            | anyChar => exact absurd rfl hwild
            | anySequence => exact absurd rfl hwild
            | anyWithin set => exact absurd rfl hwild
            | anyExcept set => exact absurd rfl hwild
        · rintro ⟨n, h⟩
          cases h with
          | char c h => exact ⟨c, _, rfl, by simp [Token.accepts], (ih _).mpr ⟨_, h⟩⟩
          | one hwild haccepts h => exact ⟨_, _, rfl, haccepts, (ih _).mpr ⟨_, h⟩⟩
          | sequence w h => exact absurd rfl htok

/-! ## Slashes -/

/-- The slashes that are written in a set. -/
def Token.setSlashes : Token → Nat
  | .anyWithin set => set.count '/'
  | .anyExcept set => set.count '/'
  | _ => 0

/-- The slashes that are written in the sets of a pattern. -/
def bracketSlashes (ts : List Token) : Nat := (ts.map Token.setSlashes).sum

/-- The slashes that the pattern stands for itself. -/
def literalSlashes (ts : List Token) : Nat := ts.count (.char '/')

@[simp] theorem bracketSlashes_cons (tok : Token) (ts : List Token) :
    bracketSlashes (tok :: ts) = tok.setSlashes + bracketSlashes ts := by
  simp [bracketSlashes]

theorem literalSlashes_cons (tok : Token) (ts : List Token) :
    literalSlashes (tok :: ts) = literalSlashes ts + if tok = .char '/' then 1 else 0 := by
  simp [literalSlashes, List.count_cons]

/-- The slashes of the set that the scan is in. -/
def Scan.slashes : Scan → Nat
  | .inside _ set => set.count '/'
  | _ => 0

/-- Every slash of a pattern is literal or in a set. -/
theorem count_tokens : ∀ (cs : List Char) (scan : Scan) {ts : List Token},
    tokens scan cs = some ts →
      scan.slashes + cs.count '/' = literalSlashes ts + bracketSlashes ts := by
  intro cs
  induction cs with
  | nil =>
      intro scan ts h
      cases scan with
      | outside => cases h; rfl
      | opened => cases h
      | negated => cases h
      | inside except set => cases h
  | cons c cs ih =>
      intro scan ts h
      have hcons : ∀ {tok : Token}, (tokens .outside cs).map (tok :: ·) = some ts →
          literalSlashes ts + bracketSlashes ts
            = cs.count '/' + tok.setSlashes + if tok = .char '/' then 1 else 0 := by
        intro tok hts
        obtain ⟨ts', hts', rfl⟩ := Option.map_eq_some_iff.mp hts
        have := ih .outside hts'
        rw [literalSlashes_cons, bracketSlashes_cons]
        simp only [Scan.slashes] at this
        omega
      cases scan with
      | outside =>
          rw [tokens] at h
          split_ifs at h with hany hseq hopen
          · rw [hcons h, hany]
            simp [Scan.slashes, Token.setSlashes]
          · rw [hcons h, hseq]
            simp [Scan.slashes, Token.setSlashes]
          · rw [← ih .opened h, hopen]
            simp [Scan.slashes]
          · rw [hcons h, List.count_cons]
            simp [Scan.slashes, Token.setSlashes]
      | opened =>
          rw [tokens] at h
          split_ifs at h with hneg
          · rw [← ih .negated h, hneg]
            simp [Scan.slashes]
          · rw [← ih _ h, List.count_cons]
            simp only [Scan.slashes, List.count_cons, List.count_nil]
            omega
      | negated =>
          rw [tokens] at h
          rw [← ih _ h, List.count_cons]
          simp only [Scan.slashes, List.count_cons, List.count_nil]
          omega
      | inside except set =>
          rw [tokens] at h
          split_ifs at h with hclose
          · have hset : (bracket except set.reverse).setSlashes = set.count '/' := by
              unfold bracket
              split_ifs <;> simp [Token.setSlashes]
            have hchar : bracket except set.reverse ≠ .char '/' := by
              unfold bracket
              split_ifs <;> simp
            rw [hcons h, hset, if_neg hchar, hclose]
            simp [Scan.slashes, Nat.add_comm]
          · rw [← ih _ h, List.count_cons]
            simp only [Scan.slashes, List.count_cons]
            omega

/-- Every slash of the text is literal or one that a wildcard stands for. -/
theorem MatchesWith.count {ts : List Token} {s : List Char} {n : Nat} (h : MatchesWith ts s n) :
    s.count '/' = literalSlashes ts + n := by
  induction h with
  | nil => rfl
  | char c _ ih =>
      rw [List.count_cons, literalSlashes_cons, ih]
      simp only [beq_iff_eq, Token.char.injEq]
      omega
  | @one tok c ts s n hwild _ _ ih =>
      have hchar : tok ≠ .char '/' := by
        rintro rfl
        cases hwild
      rw [literalSlashes_cons, if_neg hchar, List.count_cons, ih]
      simp only [List.count_cons, List.count_nil]
      omega
  | sequence w _ ih =>
      rw [List.count_append, literalSlashes_cons, ih]
      simp only [reduceCtorEq, if_false]
      omega

/-- **A text has as many slashes as the pattern that matches it** if and only if the wildcards
stand for as many as there are in the sets of the pattern. -/
theorem count_slash_eq_iff {cs s : List Char} {ts : List Token}
    (hts : tokens .outside cs = some ts) (hmatch : matchTokens ts s = true) :
    s.count '/' = cs.count '/' ↔ MatchesWith ts s (bracketSlashes ts) := by
  have hcount := count_tokens cs .outside hts
  simp only [Scan.slashes] at hcount
  constructor
  · intro h
    obtain ⟨n, hn⟩ := (matchTokens_iff ts s).mp hmatch
    have := hn.count
    rwa [show bracketSlashes ts = n by omega]
  · intro h
    have := h.count
    omega

end GlobPattern
