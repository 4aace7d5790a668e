import UsgTftp.Server.Negotiation

set_option autoImplicit false

/-! # The grammar of requests

A string of a request is at most 255 bytes of UTF-8 and a NUL. A request is a file name, a mode
and pairs of strings. Here is what `parse_string`, the request parser and its option loop make of
any bytes, and what that has to do with the grammar.

`parse_string` looks for the NUL in the first 255 bytes, so it refuses a string of exactly 255
bytes, whose NUL is the next one (`parseString_grammar_iff`).
-/

namespace UsgTftp

/-! ## Strings -/

/-- A string of the grammar at the front of a buffer, and the bytes behind its NUL. -/
def GrammarString (bytes : Bytes) (s : String) (rest : Bytes) : Prop :=
  ∃ n, bytes.findIdx? (· = 0) = some n ∧ n ≤ 255 ∧ fromUtf8 (bytes.take n) = some s ∧
    rest = bytes.drop (n + 1)

theorem asBytes_of_fromUtf8 {bytes : Bytes} {s : String} (h : fromUtf8 bytes = some s) :
    asBytes s = bytes := by
  unfold fromUtf8 String.fromUTF8? at h
  split_ifs at h with hvalid
  cases h
  rfl

theorem parseNullTerminatedString_eq_ok {bytes rest : Bytes} {s : String} :
    parseNullTerminatedString bytes = .ok (s, rest) ↔
    ∃ n, bytes.findIdx? (· = 0) = some n ∧ fromUtf8 (bytes.take n) = some s ∧
      rest = bytes.drop (n + 1) := by
  unfold parseNullTerminatedString
  cases bytes.findIdx? (· = 0) with
  | none => simp
  | some n =>
      cases htext : fromUtf8 (bytes.take n) with
      | none => simp [htext]
      | some text => simp [htext, eq_comm]

/-- The place of the NUL is the length of the string before it. -/
theorem length_of_fromUtf8_take {bytes : Bytes} {n : Nat} {s : String}
    (hnul : bytes.findIdx? (· = 0) = some n) (htext : fromUtf8 (bytes.take n) = some s) :
    (asBytes s).length = n := by
  have hlt : n < bytes.length := (List.findIdx?_eq_some_iff_getElem.mp hnul).choose
  rw [asBytes_of_fromUtf8 htext, List.length_take, Nat.min_eq_left (Nat.le_of_lt hlt)]

/-- The grammar is what the parser without a limit reads, with the limit. -/
theorem grammarString_iff {bytes rest : Bytes} {s : String} :
    GrammarString bytes s rest ↔
      parseNullTerminatedString bytes = .ok (s, rest) ∧ (asBytes s).length ≤ 255 := by
  rw [parseNullTerminatedString_eq_ok]
  constructor
  · rintro ⟨n, hnul, hn, htext, hrest⟩
    exact ⟨⟨n, hnul, htext, hrest⟩, by rw [length_of_fromUtf8_take hnul htext]; exact hn⟩
  · rintro ⟨⟨n, hnul, htext, hrest⟩, hlen⟩
    rw [length_of_fromUtf8_take hnul htext] at hlen
    exact ⟨n, hnul, hlen, htext, hrest⟩

/-- A zero is among the first bytes if and only if the first one is. -/
theorem zero_mem_take_iff {bytes : Bytes} {n k : Nat} (hnul : bytes.findIdx? (· = 0) = some n) :
    0 ∈ bytes.take k ↔ n < k := by
  obtain ⟨hlt, hzero, hfirst⟩ := List.findIdx?_eq_some_iff_getElem.mp hnul
  rw [List.mem_take_iff_getElem]
  constructor
  · rintro ⟨i, hi, h0⟩
    by_contra hk
    have hin : i < n := by omega
    exact absurd (hfirst i hin) (by simp [h0])
  · intro hk
    exact ⟨n, by omega, by simpa using hzero⟩

/-- **What `parse_string` reads**: strings of at most 254 bytes. -/
theorem parseString_eq_ok {bytes rest : Bytes} {s : String} :
    parseString bytes = .ok (s, rest) ↔
      parseNullTerminatedString bytes = .ok (s, rest) ∧ (asBytes s).length ≤ 254 := by
  rw [parseNullTerminatedString_eq_ok]
  unfold parseString
  cases hnul : bytes.findIdx? (· = 0) with
  | none => split_ifs <;> simp
  | some n =>
      have hlt : n < bytes.length := (List.findIdx?_eq_some_iff_getElem.mp hnul).choose
      have hwindow := @zero_mem_take_iff bytes n maxStringLength hnul
      by_cases hn : n < maxStringLength
      · rw [if_neg (fun h => h.2 (hwindow.mpr hn))]
        dsimp only
        rw [if_neg (by omega)]
        constructor
        · intro h
          cases htext : fromUtf8 (bytes.take n) with
          | none => rw [htext] at h; cases h
          | some text =>
              rw [htext] at h
              cases h
              refine ⟨⟨n, rfl, htext, rfl⟩, ?_⟩
              rw [length_of_fromUtf8_take hnul htext]
              exact Nat.le_of_lt_succ hn
        · rintro ⟨⟨m, hm, htext, rfl⟩, -⟩
          cases hm
          rw [htext]
      · -- the NUL is not in the window that is searched
        have hlong : bytes.length > maxStringLength := by omega
        rw [if_pos ⟨hlong, fun h => hn (hwindow.mp h)⟩]
        constructor
        · intro h
          cases h
        · rintro ⟨⟨m, hm, htext, rfl⟩, hlen⟩
          cases hm
          rw [length_of_fromUtf8_take hnul htext] at hlen
          exact absurd (Nat.lt_succ_of_le hlen) hn

/-! ## Sequences of pairs -/

/-- What a parser reads at the front of a buffer. -/
def ParsesAs (parse : StringParser) (bytes : Bytes) (s : String) (rest : Bytes) : Prop :=
  parse bytes = .ok (s, rest)

/-- The pairs at the front of a buffer, up to the first pair that is none, for a notion of
string. A derivation is finite, so the loop that goes through the pairs ends. -/
inductive PairSequence (At : Bytes → String → Bytes → Prop) :
    Bytes → List (String × String) → Prop where
  | stop {bytes : Bytes}
      (h : ∀ name value afterName rest, ¬ (At bytes name afterName ∧ At afterName value rest)) :
      PairSequence At bytes []
  | pair {bytes afterName rest : Bytes} {name value : String} {pairs : List (String × String)}
      (hname : At bytes name afterName) (hvalue : At afterName value rest)
      (h : PairSequence At rest pairs) : PairSequence At bytes ((name, value) :: pairs)

/-- The pairs that the option loop inserts, in order. -/
def optionSequence (parse : StringParser) : Nat → Bytes → List (String × String)
  | 0, _ => []
  | fuel + 1, bytes =>
      if bytes = [] then []
      else
        match parse bytes with
        | .error _ => []
        | .ok (optionName, bytes) =>
            match parse bytes with
            | .error _ => []
            | .ok (optionValue, bytes) =>
                (optionName, optionValue) :: optionSequence parse fuel bytes

theorem parseOptionsLoop_eq_insertPairs (parse : StringParser) :
    ∀ (fuel : Nat) (bytes : Bytes) (options : OptionMap),
      parseOptionsLoop parse fuel bytes options
        = insertPairs options (optionSequence parse fuel bytes) := by
  intro fuel
  induction fuel with
  | zero => intro bytes options; rfl
  | succ fuel ih =>
      intro bytes options
      rw [parseOptionsLoop, optionSequence]
      by_cases hnil : bytes = []
      · rw [if_pos hnil, if_pos hnil]
        rfl
      rw [if_neg hnil, if_neg hnil]
      cases parse bytes with
      | error e => rfl
      | ok r =>
          dsimp only
          cases parse r.2 with
          | error e => rfl
          | ok r' => exact ih _ _

/-- A parser that takes a byte at least, as one that looks for a NUL does. -/
structure Consumes (parse : StringParser) : Prop where
  nil : ∀ r, parse [] ≠ .ok r
  length : ∀ bytes s rest, parse bytes = .ok (s, rest) → rest.length < bytes.length

theorem consumes_parseNullTerminatedString : Consumes parseNullTerminatedString := by
  refine ⟨?_, ?_⟩
  · intro r h
    cases h
  intro bytes s rest h
  obtain ⟨n, hnul, -, rfl⟩ := parseNullTerminatedString_eq_ok.mp h
  have hlt : n < bytes.length := (List.findIdx?_eq_some_iff_getElem.mp hnul).choose
  rw [List.length_drop]
  omega

theorem consumes_parseString : Consumes parseString := by
  refine ⟨?_, ?_⟩
  · intro r h
    cases h
  intro bytes s rest h
  exact consumes_parseNullTerminatedString.length _ _ _ (parseString_eq_ok.mp h).1

/-- **The option loop ends**: with as many turns as there are bytes it comes to a pair that
cannot be read. -/
theorem pairSequence_optionSequence {parse : StringParser} (hparse : Consumes parse) :
    ∀ (fuel : Nat) (bytes : Bytes), bytes.length ≤ fuel →
      PairSequence (ParsesAs parse) bytes (optionSequence parse fuel bytes) := by
  intro fuel
  induction fuel with
  | zero =>
      intro bytes hfuel
      obtain rfl : bytes = [] := List.length_eq_zero_iff.mp (by omega)
      exact .stop fun _ _ _ _ h => hparse.nil _ h.1
  | succ fuel ih =>
      intro bytes hfuel
      rw [optionSequence]
      by_cases hnil : bytes = []
      · rw [if_pos hnil, hnil]
        exact .stop fun _ _ _ _ h => hparse.nil _ h.1
      rw [if_neg hnil]
      cases hname : parse bytes with
      | error e =>
          apply PairSequence.stop
          intro name value afterName rest h
          have hread : parse bytes = .ok (name, afterName) := h.1
          rw [hname] at hread
          cases hread
      | ok r =>
          dsimp only
          have hshort := hparse.length _ _ _ hname
          cases hvalue : parse r.2 with
          | error e =>
              apply PairSequence.stop
              intro name value afterName rest h
              have hread : parse bytes = .ok (name, afterName) := h.1
              have hnext : parse afterName = .ok (value, rest) := h.2
              rw [hname] at hread
              cases hread
              rw [hvalue] at hnext
              cases hnext
          | ok r' =>
              have hshort' := hparse.length _ _ _ hvalue
              exact .pair hname hvalue (ih _ (by omega))

/-- At most one string stands at the front of a buffer. -/
def Deterministic (At : Bytes → String → Bytes → Prop) : Prop :=
  ∀ bytes s s' rest rest', At bytes s rest → At bytes s' rest' → s = s' ∧ rest = rest'

theorem deterministic_parsesAs (parse : StringParser) : Deterministic (ParsesAs parse) := by
  intro bytes s s' rest rest' h h'
  have heq := Eq.trans (Eq.symm h) h'
  cases heq
  exact ⟨rfl, rfl⟩

theorem deterministic_grammarString : Deterministic GrammarString := by
  intro bytes s s' rest rest' h h'
  exact deterministic_parsesAs _ _ _ _ _ _ (grammarString_iff.mp h).1 (grammarString_iff.mp h').1

/-- The pairs are determined by the buffer. -/
theorem PairSequence.unique {At : Bytes → String → Bytes → Prop} (hAt : Deterministic At)
    {bytes : Bytes} {pairs pairs' : List (String × String)} (h : PairSequence At bytes pairs)
    (h' : PairSequence At bytes pairs') : pairs = pairs' := by
  induction h generalizing pairs' with
  | stop hstop =>
      cases h' with
      | stop _ => rfl
      | pair hname hvalue _ => exact absurd ⟨hname, hvalue⟩ (hstop _ _ _ _)
  | pair hname hvalue _ ih =>
      cases h' with
      | stop hstop => exact absurd ⟨hname, hvalue⟩ (hstop _ _ _ _)
      | pair hname' hvalue' hrest =>
          obtain ⟨rfl, rfl⟩ := hAt _ _ _ _ _ hname hname'
          obtain ⟨rfl, rfl⟩ := hAt _ _ _ _ _ hvalue hvalue'
          rw [ih hrest]

/-- If only some strings are read, the pairs end before the first one with another string. -/
theorem PairSequence.restrict {At At' : Bytes → String → Bytes → Prop} {P : String → Prop}
    [DecidablePred P] (hP : ∀ bytes s rest, At' bytes s rest ↔ At bytes s rest ∧ P s)
    (hAt : Deterministic At) {bytes : Bytes} {pairs : List (String × String)}
    (h : PairSequence At bytes pairs) :
    PairSequence At' bytes (pairs.takeWhile fun o => P o.1 ∧ P o.2) := by
  induction h with
  | stop hstop =>
      apply PairSequence.stop
      intro name value afterName rest h
      exact hstop _ _ _ _ ⟨((hP _ _ _).mp h.1).1, ((hP _ _ _).mp h.2).1⟩
  | @pair bytes afterName rest name value pairs hname hvalue _ ih =>
      by_cases hshort : P name ∧ P value
      · rw [List.takeWhile_cons_of_pos (by simpa using hshort)]
        exact .pair ((hP _ _ _).mpr ⟨hname, hshort.1⟩) ((hP _ _ _).mpr ⟨hvalue, hshort.2⟩) ih
      · rw [List.takeWhile_cons_of_neg (by simpa using hshort)]
        apply PairSequence.stop
        intro name' value' afterName' rest' h
        obtain ⟨hname', hPname⟩ := (hP _ _ _).mp h.1
        obtain ⟨hvalue', hPvalue⟩ := (hP _ _ _).mp h.2
        obtain ⟨rfl, rfl⟩ := hAt _ _ _ _ _ hname hname'
        obtain ⟨rfl, rfl⟩ := hAt _ _ _ _ _ hvalue hvalue'
        exact hshort ⟨hPname, hPvalue⟩

/-! ## Requests -/

/-- A request with its pairs in the order in which they are inserted. -/
def requestSequence (parse : StringParser) (body : Bytes) :
    Except TftpError (String × String × List (String × String)) := do
  let (filename, bytes) ← parse body
  let (modeStr, bytes) ← parse bytes
  return (filename, modeStr, optionSequence parse bytes.length bytes)

theorem parseRequestPacket_eq_requestSequence (parse : StringParser) (body : Bytes) :
    parseRequestPacket parse body
      = (requestSequence parse body).map fun r => ⟨r.1, r.2.1, insertPairs ∅ r.2.2⟩ := by
  unfold parseRequestPacket requestSequence
  cases parse body with
  | error e => rfl
  | ok r =>
      rw [ok_bind, ok_bind]
      dsimp only
      cases parse r.2 with
      | error e => rfl
      | ok r' =>
          have hpairs := parseOptionsLoop_eq_insertPairs parse r'.2.length r'.2 ∅
          show Except.ok (Request.mk r.1 r'.1 (parseOptionsLoop parse r'.2.length r'.2 ∅)) = _
          rw [hpairs]
          rfl

theorem requestSequence_eq_ok {parse : StringParser} {body : Bytes} {name mode : String}
    {pairs : List (String × String)} :
    requestSequence parse body = .ok (name, mode, pairs) ↔
    ∃ afterName rest, parse body = .ok (name, afterName) ∧ parse afterName = .ok (mode, rest) ∧
      pairs = optionSequence parse rest.length rest := by
  unfold requestSequence
  constructor
  · intro h
    obtain ⟨⟨name', afterName⟩, hname, h⟩ := bind_eq_ok.mp h
    obtain ⟨⟨mode', rest⟩, hmode, h⟩ := bind_eq_ok.mp h
    cases h
    exact ⟨afterName, rest, hname, hmode, rfl⟩
  · rintro ⟨afterName, rest, hname, hmode, rfl⟩
    rw [hname, ok_bind]
    dsimp only
    rw [hmode]
    rfl

/-- A request, for a notion of string: a file name, a mode and the pairs behind them. -/
def RequestAt (At : Bytes → String → Bytes → Prop) (body : Bytes) (name mode : String)
    (pairs : List (String × String)) : Prop :=
  ∃ afterName rest, At body name afterName ∧ At afterName mode rest ∧ PairSequence At rest pairs

theorem requestSequence_iff {parse : StringParser} (hparse : Consumes parse) {body : Bytes}
    {name mode : String} {pairs : List (String × String)} :
    requestSequence parse body = .ok (name, mode, pairs) ↔
      RequestAt (ParsesAs parse) body name mode pairs := by
  rw [requestSequence_eq_ok]
  refine exists_congr fun afterName => exists_congr fun rest => ?_
  refine and_congr_right fun _ => and_congr_right fun _ => ?_
  have hseq := pairSequence_optionSequence hparse _ rest le_rfl
  constructor
  · rintro rfl
    exact hseq
  · intro h
    exact h.unique (deterministic_parsesAs parse) hseq

/-- What the request parser should do with a body: accept it when it starts with two strings, and
go through the pairs that follow them. -/
structure FollowsGrammar (body : Bytes) : Prop where
  accepts : (∃ request, parseRequestPacket parseString body = .ok request) ↔
    ∃ name afterName mode rest, GrammarString body name afterName ∧
      GrammarString afterName mode rest
  yields : ∀ name mode pairs, RequestAt GrammarString body name mode pairs →
    requestSequence parseString body = .ok (name, mode, pairs) ∧
      parseRequestPacket parseString body = .ok ⟨name, mode, insertPairs ∅ pairs⟩

/-- The strings of a request. -/
def requestStrings (name mode : String) (pairs : List (String × String)) : List String :=
  name :: mode :: pairs.flatMap fun o => [o.1, o.2]

theorem takeWhile_pairs_eq_self {P : String → Prop} [DecidablePred P]
    {pairs : List (String × String)} :
    pairs.takeWhile (fun o => P o.1 ∧ P o.2) = pairs ↔
      ∀ s ∈ pairs.flatMap fun o => [o.1, o.2], P s := by
  rw [List.takeWhile_eq_self_iff]
  simp only [decide_eq_true_eq, List.mem_flatMap, List.mem_cons, List.not_mem_nil, or_false]
  constructor
  · rintro h s ⟨o, ho, rfl | rfl⟩
    · exact (h o ho).1
    · exact (h o ho).2
  · intro h o ho
    exact ⟨h _ ⟨o, ho, Or.inl rfl⟩, h _ ⟨o, ho, Or.inr rfl⟩⟩

/-- The pairs of the grammar are those of the parser without a limit, up to a long string. -/
theorem exists_pairSequence_grammar (bytes : Bytes) :
    ∃ pairs, PairSequence GrammarString bytes pairs := by
  have hgrammar : ∀ bytes s rest, GrammarString bytes s rest ↔
      ParsesAs parseNullTerminatedString bytes s rest ∧ (asBytes s).length ≤ 255 :=
    fun _ _ _ => grammarString_iff
  have h := pairSequence_optionSequence consumes_parseNullTerminatedString _ bytes le_rfl
  exact ⟨_, h.restrict hgrammar (deterministic_parsesAs _)⟩

/-- `parse_string` reads the strings of the grammar that are not of the greatest length. -/
theorem parsesAs_parseString_iff (bytes : Bytes) (s : String) (rest : Bytes) :
    ParsesAs parseString bytes s rest ↔
      GrammarString bytes s rest ∧ (asBytes s).length ≠ 255 := by
  rw [ParsesAs, parseString_eq_ok, grammarString_iff, and_assoc]
  refine and_congr_right fun _ => ?_
  omega

theorem followsGrammar_iff (body : Bytes) :
    FollowsGrammar body ↔
      ∀ name mode pairs, RequestAt GrammarString body name mode pairs →
        ∀ s ∈ requestStrings name mode pairs, (asBytes s).length ≠ 255 := by
  have hrestrict : ∀ {rest pairs}, PairSequence GrammarString rest pairs →
      PairSequence (ParsesAs parseString) rest (pairs.takeWhile fun o =>
        (asBytes o.1).length ≠ 255 ∧ (asBytes o.2).length ≠ 255) :=
    fun h => h.restrict parsesAs_parseString_iff deterministic_grammarString
  constructor
  · -- what the parser yields has no such string
    rintro h name mode pairs hreq
    obtain ⟨afterName, rest, hname, hmode, hpairs⟩ :=
      (requestSequence_iff consumes_parseString).mp (h.yields name mode pairs hreq).1
    have hname' := (parsesAs_parseString_iff _ _ _).mp hname
    have hmode' := (parsesAs_parseString_iff _ _ _).mp hmode
    obtain ⟨afterName', rest', hgname, hgmode, hgpairs⟩ := hreq
    obtain ⟨-, rfl⟩ := deterministic_grammarString _ _ _ _ _ hname'.1 hgname
    obtain ⟨-, rfl⟩ := deterministic_grammarString _ _ _ _ _ hmode'.1 hgmode
    have hsame := (hrestrict hgpairs).unique (deterministic_parsesAs _) hpairs
    have hall := (@takeWhile_pairs_eq_self (fun s => (asBytes s).length ≠ 255) _ pairs).mp hsame
    intro s hs
    rcases List.mem_cons.mp hs with rfl | hs
    · exact hname'.2
    rcases List.mem_cons.mp hs with rfl | hs
    · exact hmode'.2
    · exact hall s hs
  · intro h
    have hsequence : ∀ name mode pairs, RequestAt GrammarString body name mode pairs →
        requestSequence parseString body = .ok (name, mode, pairs) := by
      intro name mode pairs hreq
      have hlen := h name mode pairs hreq
      obtain ⟨afterName, rest, hname, hmode, hpairs⟩ := hreq
      rw [requestSequence_iff consumes_parseString]
      refine ⟨afterName, rest, ?_, ?_, ?_⟩
      · exact (parsesAs_parseString_iff _ _ _).mpr ⟨hname, hlen _ (by simp [requestStrings])⟩
      · exact (parsesAs_parseString_iff _ _ _).mpr ⟨hmode, hlen _ (by simp [requestStrings])⟩
      · have hall := (@takeWhile_pairs_eq_self (fun s => (asBytes s).length ≠ 255) _ pairs).mpr
          (fun s hs => hlen s (List.mem_cons_of_mem _ (List.mem_cons_of_mem _ hs)))
        have hparsed := hrestrict hpairs
        rwa [hall] at hparsed
    have hyields : ∀ name mode pairs, RequestAt GrammarString body name mode pairs →
        parseRequestPacket parseString body = .ok ⟨name, mode, insertPairs ∅ pairs⟩ := by
      intro name mode pairs hreq
      rw [parseRequestPacket_eq_requestSequence, hsequence _ _ _ hreq]
      rfl
    refine ⟨?_, fun _ _ _ hreq => ⟨hsequence _ _ _ hreq, hyields _ _ _ hreq⟩⟩
    constructor
    · rintro ⟨request, hreq⟩
      obtain ⟨⟨name, afterName⟩, hname, hreq⟩ := bind_eq_ok.mp hreq
      obtain ⟨⟨mode, rest⟩, hmode, -⟩ := bind_eq_ok.mp hreq
      exact ⟨name, afterName, mode, rest, ((parsesAs_parseString_iff _ _ _).mp hname).1,
        ((parsesAs_parseString_iff _ _ _).mp hmode).1⟩
    · rintro ⟨name, afterName, mode, rest, hname, hmode⟩
      obtain ⟨pairs, hpairs⟩ := exists_pairSequence_grammar rest
      exact ⟨_, hyields name mode pairs ⟨afterName, rest, hname, hmode, hpairs⟩⟩

/-- **When the parsers follow the grammar.** `parse_string` does unless the buffer starts with a
string of exactly 255 bytes, the request parser unless the request has such a string; the option
loop always ends. -/
theorem parseString_grammar_iff (bytes body : Bytes) :
    ((∀ s rest, parseString bytes = .ok (s, rest) ↔ GrammarString bytes s rest) ↔
      ∀ s rest, GrammarString bytes s rest → (asBytes s).length ≠ 255) ∧
    PairSequence (ParsesAs parseString) bytes
      (optionSequence parseString bytes.length bytes) ∧
    (FollowsGrammar body ↔
      ∀ name mode pairs, RequestAt GrammarString body name mode pairs →
        ∀ s ∈ requestStrings name mode pairs, (asBytes s).length ≠ 255) := by
  refine ⟨?_, pairSequence_optionSequence consumes_parseString _ bytes le_rfl,
    followsGrammar_iff body⟩
  have hparse := parsesAs_parseString_iff bytes
  constructor
  · intro h s rest hs
    exact ((hparse s rest).mp ((h s rest).mpr hs)).2
  · intro h s rest
    exact (hparse s rest).trans ⟨fun hs => hs.1, fun hs => ⟨hs, h s rest hs⟩⟩

/-- A string of 255 bytes, which the grammar has, is refused. -/
theorem longest_string_refused :
    let bytes := List.replicate 255 97 ++ [0]
    ¬ ∀ s rest, parseString bytes = .ok (s, rest) ↔ GrammarString bytes s rest := by
  intro bytes h
  have hnul : bytes.findIdx? (· = 0) = some 255 := by decide +kernel
  have htext : asBytes (String.ofList (List.replicate 255 'a')) = bytes.take 255 := by
    rw [asBytes_eq, String.toList_ofList]
    decide +kernel
  obtain ⟨s, hs⟩ : ∃ s, fromUtf8 (bytes.take 255) = some s := ⟨_, htext ▸ fromUtf8_asBytes _⟩
  have hgrammar : GrammarString bytes s [] := ⟨255, hnul, le_rfl, hs, by decide +kernel⟩
  have hparsed := (parsesAs_parseString_iff bytes s []).mp ((h s []).mpr hgrammar)
  exact hparsed.2 (length_of_fromUtf8_take hnul hs)

end UsgTftp
