import PraxisPolicy.LexerCorrectness
import PraxisPolicy.PredicateParser

/-!
# The grammar of predicates

The parser is sound by induction on its rounds and complete by induction on derivations, where what
follows a phrase must not be able to extend it.
-/

namespace PraxisPolicy

open TextScanning

inductive Nonterminal where
  | predicate | alternatives | conjunction | factors | unary | atom | requireArgs

/-- A repetition denotes the list of its phrases, every other nonterminal one expression. -/
inductive Derives : Nonterminal → List Tok → List Expression → Prop where
  | predicate {ts us : List Tok} {e : Expression} {es : List Expression}
      (hfirst : Derives .conjunction ts [e]) (hmore : Derives .alternatives us es) :
      Derives .predicate (ts ++ us) [anyOf e es]
  | noAlternative : Derives .alternatives [] []
  | alternative {ts us : List Tok} {e : Expression} {es : List Expression}
      (hfirst : Derives .conjunction ts [e]) (hmore : Derives .alternatives us es) :
      Derives .alternatives (.or :: (ts ++ us)) (e :: es)
  | conjunction {ts us : List Tok} {e : Expression} {es : List Expression}
      (hfirst : Derives .unary ts [e]) (hmore : Derives .factors us es) :
      Derives .conjunction (ts ++ us) [allOf e es]
  | noFactor : Derives .factors [] []
  | factor {ts us : List Tok} {e : Expression} {es : List Expression}
      (hfirst : Derives .unary ts [e]) (hmore : Derives .factors us es) :
      Derives .factors (.and :: (ts ++ us)) (e :: es)
  | not {ts : List Tok} {e : Expression} (h : Derives .unary ts [e]) :
      Derives .unary (.not :: ts) [.not e]
  | unary {ts : List Tok} {e : Expression} (h : Derives .atom ts [e]) : Derives .unary ts [e]
  | group {ts : List Tok} {e : Expression} (h : Derives .predicate ts [e]) :
      Derives .atom (.lParen :: (ts ++ [.rParen])) [e]
  | require {ts : List Tok} {e : Expression} {es : List Expression}
      (h : Derives .requireArgs ts (e :: es)) :
      Derives .atom (.require :: .lParen :: (ts ++ [.rParen])) [normalizeNot (allOf e es)]
  | exists {key : String} :
      Derives .atom [.exists, .lParen, .ident key, .rParen] [.condition (.exists key)]
  | comparison {key : String} {operator operand : Tok} {op : CompareOp} {value : Literal}
      (hop : compareOp operator = some op) (hvalue : literalOf operand = some value) :
      Derives .atom [.ident key, operator, operand] [.condition (.comparison key op value)]
  | member {key set : String} :
      Derives .atom [.ident key, .inWord, .ident set] [.condition (.inSet key set false)]
  | notMember {key set : String} :
      Derives .atom [.ident key, .notWord, .inWord, .ident set] [.condition (.inSet key set true)]
  | path {key : String} : Derives .atom [.ident key] [.condition (.isTrue key)]
  | lastArg {ts : List Tok} {e : Expression} (h : Derives .predicate ts [e]) :
      Derives .requireArgs ts [e]
  | arg {ts us : List Tok} {e e' : Expression} {es : List Expression}
      (hfirst : Derives .predicate ts [e]) (hmore : Derives .requireArgs us (e' :: es)) :
      Derives .requireArgs (ts ++ .comma :: us) (e :: e' :: es)

def IsPredicate [Library] (Path : List Char → Prop) (src : String) (e : Expression) : Prop :=
  ∃ toks, Lexes Path (trimChars src.toList) toks ∧ Derives .predicate toks [e]

section Soundness

variable [Library] [FloatText]

theorem derives_of_finishInSet {key : String} {negated : Bool} {toks rest : List Tok}
    {e : Expression} (h : finishInSet key negated toks = .ok (e, rest)) :
    ∃ set, toks = .ident set :: rest ∧ e = .condition (.inSet key set negated) := by
  unfold finishInSet at h
  split at h
  · cases h
    exact ⟨_, rfl, rfl⟩
  · cases h

theorem derives_of_parseIdentifierPredicate {key : String} {toks rest : List Tok} {e : Expression}
    (h : parseIdentifierPredicate key toks = .ok (e, rest)) :
    ∃ ts, toks = ts ++ rest ∧ Derives .atom (.ident key :: ts) [e] := by
  unfold parseIdentifierPredicate at h
  split at h
  · obtain ⟨set, rfl, rfl⟩ := derives_of_finishInSet h
    exact ⟨[.inWord, .ident set], rfl, .member⟩
  · obtain ⟨set, rfl, rfl⟩ := derives_of_finishInSet h
    exact ⟨[.notWord, .inWord, .ident set], rfl, .notMember⟩
  · cases h
  · cases h
    exact ⟨[], rfl, .path⟩
  · rename_i tok after _ _ _
    split at h
    · cases h
      exact ⟨[], rfl, .path⟩
    · rename_i op hop
      split at h
      · cases h
      · rename_i operand after _
        split at h
        · rename_i value hvalue
          cases h
          exact ⟨[tok, operand], rfl, .comparison hop hvalue⟩
        · split at h <;> cases h

theorem derives_of_parseExists {toks rest : List Tok} {e : Expression}
    (h : parseExists toks = .ok (e, rest)) :
    ∃ ts, toks = ts ++ rest ∧ Derives .atom (.exists :: ts) [e] := by
  unfold parseExists at h
  split at h
  · rename_i key after
    cases h
    exact ⟨[.lParen, .ident key, .rParen], rfl, .exists⟩
  all_goals cases h

/-- What the parser returns after a number of rounds is derived from what it took off. -/
structure SoundAt (n : ℕ) : Prop where
  or : ∀ {toks e rest}, parseOr n toks = .ok (e, rest) →
    ∃ ts, toks = ts ++ rest ∧ Derives .predicate ts [e]
  orOperands : ∀ {toks es rest}, orOperands n toks = .ok (es, rest) →
    ∃ ts, toks = ts ++ rest ∧ Derives .alternatives ts es
  and : ∀ {toks e rest}, parseAnd n toks = .ok (e, rest) →
    ∃ ts, toks = ts ++ rest ∧ Derives .conjunction ts [e]
  andOperands : ∀ {toks es rest}, andOperands n toks = .ok (es, rest) →
    ∃ ts, toks = ts ++ rest ∧ Derives .factors ts es
  unary : ∀ {toks e rest}, parseUnary n toks = .ok (e, rest) →
    ∃ ts, toks = ts ++ rest ∧ Derives .unary ts [e]
  atom : ∀ {toks e rest}, parseAtom n toks = .ok (e, rest) →
    ∃ ts, toks = ts ++ rest ∧ Derives .atom ts [e]
  requireOperands : ∀ {toks e es rest}, requireOperands n toks = .ok ((e, es), rest) →
    ∃ ts, toks = ts ++ .rParen :: rest ∧ Derives .requireArgs ts (e :: es)

variable {n : ℕ} {toks rest : List Tok} {e : Expression} {es : List Expression}

theorem SoundAt.or_succ (ih : SoundAt n) (h : parseOr (n + 1) toks = .ok (e, rest)) :
    ∃ ts, toks = ts ++ rest ∧ Derives .predicate ts [e] := by
  rw [parseOr] at h
  split at h
  · cases h
  rename_i first after hfirst
  split at h
  · rename_i more after' hmore
    cases h
    obtain ⟨ts, rfl, hts⟩ := ih.and hfirst
    obtain ⟨us, rfl, hus⟩ := ih.orOperands hmore
    exact ⟨ts ++ us, by simp, .predicate hts hus⟩
  · cases h

theorem SoundAt.orOperands_succ (ih : SoundAt n)
    (h : PraxisPolicy.orOperands (n + 1) toks = .ok (es, rest)) :
    ∃ ts, toks = ts ++ rest ∧ Derives .alternatives ts es := by
  unfold PraxisPolicy.orOperands at h
  split at h
  · cases h
  · rename_i rounds toks heq
    cases heq
    split at h
    · cases h
    rename_i first after hfirst
    split at h
    · rename_i more after' hmore
      cases h
      obtain ⟨ts, rfl, hts⟩ := ih.and hfirst
      obtain ⟨us, rfl, hus⟩ := ih.orOperands hmore
      exact ⟨.or :: (ts ++ us), by simp, .alternative hts hus⟩
    · cases h
  · cases h
    exact ⟨[], rfl, .noAlternative⟩

theorem SoundAt.and_succ (ih : SoundAt n) (h : parseAnd (n + 1) toks = .ok (e, rest)) :
    ∃ ts, toks = ts ++ rest ∧ Derives .conjunction ts [e] := by
  rw [parseAnd] at h
  split at h
  · cases h
  rename_i first after hfirst
  split at h
  · rename_i more after' hmore
    cases h
    obtain ⟨ts, rfl, hts⟩ := ih.unary hfirst
    obtain ⟨us, rfl, hus⟩ := ih.andOperands hmore
    exact ⟨ts ++ us, by simp, .conjunction hts hus⟩
  · cases h

theorem SoundAt.andOperands_succ (ih : SoundAt n)
    (h : PraxisPolicy.andOperands (n + 1) toks = .ok (es, rest)) :
    ∃ ts, toks = ts ++ rest ∧ Derives .factors ts es := by
  unfold PraxisPolicy.andOperands at h
  split at h
  · cases h
  · rename_i rounds toks heq
    cases heq
    split at h
    · cases h
    rename_i first after hfirst
    split at h
    · rename_i more after' hmore
      cases h
      obtain ⟨ts, rfl, hts⟩ := ih.unary hfirst
      obtain ⟨us, rfl, hus⟩ := ih.andOperands hmore
      exact ⟨.and :: (ts ++ us), by simp, .factor hts hus⟩
    · cases h
  · cases h
    exact ⟨[], rfl, .noFactor⟩

theorem SoundAt.unary_succ (ih : SoundAt n) (h : parseUnary (n + 1) toks = .ok (e, rest)) :
    ∃ ts, toks = ts ++ rest ∧ Derives .unary ts [e] := by
  unfold parseUnary at h
  split at h
  · cases h
  · rename_i rounds toks heq
    cases heq
    split at h
    · rename_i inner after hinner
      cases h
      obtain ⟨ts, rfl, hts⟩ := ih.unary hinner
      exact ⟨.not :: ts, rfl, .not hts⟩
    · cases h
  · rename_i heq _
    cases heq
    obtain ⟨ts, rfl, hts⟩ := ih.atom h
    exact ⟨ts, rfl, .unary hts⟩

theorem SoundAt.atom_succ (ih : SoundAt n) (h : parseAtom (n + 1) toks = .ok (e, rest)) :
    ∃ ts, toks = ts ++ rest ∧ Derives .atom ts [e] := by
  unfold parseAtom at h
  split at h
  · cases h
  · rename_i rounds toks heq
    cases heq
    split at h
    · rename_i inner after hinner
      cases h
      obtain ⟨ts, rfl, hts⟩ := ih.or hinner
      exact ⟨.lParen :: (ts ++ [.rParen]), by simp, .group hts⟩
    · cases h
    · cases h
  · rename_i rounds toks heq
    cases heq
    split at h
    · rename_i first more after hargs
      cases h
      obtain ⟨ts, rfl, hts⟩ := ih.requireOperands hargs
      exact ⟨.require :: .lParen :: (ts ++ [.rParen]), by simp, .require hts⟩
    · cases h
  · cases h
  · obtain ⟨ts, rfl, hts⟩ := derives_of_parseExists h
    exact ⟨_, rfl, hts⟩
  · obtain ⟨ts, rfl, hts⟩ := derives_of_parseIdentifierPredicate h
    exact ⟨_, rfl, hts⟩
  · cases h
  · split_ifs at h
  · cases h

theorem SoundAt.requireOperands_succ (ih : SoundAt n)
    (h : PraxisPolicy.requireOperands (n + 1) toks = .ok ((e, es), rest)) :
    ∃ ts, toks = ts ++ .rParen :: rest ∧ Derives .requireArgs ts (e :: es) := by
  rw [PraxisPolicy.requireOperands] at h
  split at h
  · cases h
  · rename_i first after hfirst
    split at h
    · rename_i second more after' hmore
      cases h
      obtain ⟨ts, rfl, hts⟩ := ih.or hfirst
      obtain ⟨us, rfl, hus⟩ := ih.requireOperands hmore
      exact ⟨ts ++ .comma :: us, by simp, .arg hts hus⟩
    · cases h
  · rename_i first after hfirst
    cases h
    obtain ⟨ts, rfl, hts⟩ := ih.or hfirst
    exact ⟨ts, rfl, .lastArg hts⟩
  · cases h

theorem soundAt (n : ℕ) : SoundAt n := by
  induction n with
  | zero => exact ⟨nofun, nofun, nofun, nofun, nofun, nofun, nofun⟩
  | succ n ih =>
    exact ⟨ih.or_succ, ih.orOperands_succ, ih.and_succ, ih.andOperands_succ, ih.unary_succ,
      ih.atom_succ, ih.requireOperands_succ⟩

end Soundness

section Completeness

def continuesPath : Tok → Bool
  | .inWord | .notWord | .eq | .notEq | .gt | .gtEq | .lt | .ltEq | .contains => true
  | _ => false

def Nonterminal.Follow (rest : List Tok) : Nonterminal → Prop
  | .predicate | .alternatives =>
    ∀ t, rest.head? = some t → continuesPath t = false ∧ t ≠ .and ∧ t ≠ .or
  | .conjunction | .factors => ∀ t, rest.head? = some t → continuesPath t = false ∧ t ≠ .and
  | .unary | .atom => ∀ t, rest.head? = some t → continuesPath t = false
  | .requireArgs => True

variable {rest : List Tok} {es : List Expression}

theorem follow_alternatives {us : List Tok} (h : Derives .alternatives us es)
    (hrest : Nonterminal.Follow rest .alternatives) :
    Nonterminal.Follow (us ++ rest) .conjunction := by
  cases h with
  | noAlternative => exact fun t ht => ⟨(hrest t ht).1, (hrest t ht).2.1⟩
  | alternative =>
    rintro t ⟨⟩
    exact ⟨rfl, by simp⟩

theorem follow_factors {us : List Tok} (h : Derives .factors us es)
    (hrest : Nonterminal.Follow rest .factors) : Nonterminal.Follow (us ++ rest) .unary := by
  cases h with
  | noFactor => exact fun t ht => (hrest t ht).1
  | factor =>
    rintro t ⟨⟩
    rfl

theorem follow_closing {t : Tok} (ht : t = .rParen ∨ t = .comma) :
    Nonterminal.Follow (t :: rest) .predicate := by
  rintro _ ⟨⟩
  rcases ht with rfl | rfl <;> simp [continuesPath]

variable [Library] [FloatText]

/-- The parser takes the phrase off, given rounds enough for its length. -/
def Nonterminal.Taken (ts : List Tok) (es : List Expression) : Nonterminal → Prop
  | .predicate => ∀ e n rest, es = [e] → 4 * ts.length + 3 ≤ n →
      Follow rest .predicate → parseOr n (ts ++ rest) = .ok (e, rest)
  | .alternatives => ∀ n rest, 4 * ts.length + 1 ≤ n →
      Follow rest .alternatives → orOperands n (ts ++ rest) = .ok (es, rest)
  | .conjunction => ∀ e n rest, es = [e] → 4 * ts.length + 2 ≤ n →
      Follow rest .conjunction → parseAnd n (ts ++ rest) = .ok (e, rest)
  | .factors => ∀ n rest, 4 * ts.length + 1 ≤ n →
      Follow rest .factors → andOperands n (ts ++ rest) = .ok (es, rest)
  | .unary => ∀ e n rest, es = [e] → 4 * ts.length + 1 ≤ n →
      Follow rest .unary → parseUnary n (ts ++ rest) = .ok (e, rest)
  | .atom => ∀ e n rest, es = [e] → 4 * ts.length ≤ n →
      Follow rest .atom → parseAtom n (ts ++ rest) = .ok (e, rest)
  | .requireArgs => ∀ e more n rest, es = e :: more → 4 * ts.length + 4 ≤ n →
      requireOperands n (ts ++ .rParen :: rest) = .ok ((e, more), rest)

theorem taken_of_derives {nt : Nonterminal} {ts : List Tok} (h : Derives nt ts es) :
    nt.Taken ts es := by
  have hrounds : ∀ {k n : ℕ}, k + 1 ≤ n → ∃ m, n = m + 1 ∧ k ≤ m := by
    intro k n hn
    exact ⟨n - 1, by omega, by omega⟩
  induction h with
  | @predicate ts us e es hfirst hmore ihfirst ihmore =>
    rintro _ n rest ⟨⟩ hn hfollow
    rw [List.length_append] at hn
    obtain ⟨n, rfl, hn⟩ := hrounds hn
    rw [List.append_assoc, parseOr,
      ihfirst e n _ rfl (by omega) (follow_alternatives hmore hfollow)]
    dsimp only
    rw [ihmore n rest (by omega) hfollow]
  | noAlternative =>
    intro n rest hn hfollow
    obtain ⟨n, rfl, hn⟩ := hrounds hn
    rw [List.nil_append, orOperands]
    rintro toks rfl
    exact (hfollow .or rfl).2.2 rfl
  | @alternative ts us e es hfirst hmore ihfirst ihmore =>
    intro n rest hn hfollow
    rw [List.length_cons, List.length_append] at hn
    obtain ⟨n, rfl, hn⟩ := hrounds hn
    rw [List.cons_append, List.append_assoc, orOperands,
      ihfirst e n _ rfl (by omega) (follow_alternatives hmore hfollow)]
    dsimp only
    rw [ihmore n rest (by omega) hfollow]
  | @conjunction ts us e es hfirst hmore ihfirst ihmore =>
    rintro _ n rest ⟨⟩ hn hfollow
    rw [List.length_append] at hn
    obtain ⟨n, rfl, hn⟩ := hrounds hn
    rw [List.append_assoc, parseAnd, ihfirst e n _ rfl (by omega) (follow_factors hmore hfollow)]
    dsimp only
    rw [ihmore n rest (by omega) hfollow]
  | noFactor =>
    intro n rest hn hfollow
    obtain ⟨n, rfl, hn⟩ := hrounds hn
    rw [List.nil_append, andOperands]
    rintro toks rfl
    exact (hfollow .and rfl).2 rfl
  | @factor ts us e es hfirst hmore ihfirst ihmore =>
    intro n rest hn hfollow
    rw [List.length_cons, List.length_append] at hn
    obtain ⟨n, rfl, hn⟩ := hrounds hn
    rw [List.cons_append, List.append_assoc, andOperands,
      ihfirst e n _ rfl (by omega) (follow_factors hmore hfollow)]
    dsimp only
    rw [ihmore n rest (by omega) hfollow]
  | @not ts e h ih =>
    rintro _ n rest ⟨⟩ hn hfollow
    rw [List.length_cons] at hn
    obtain ⟨n, rfl, hn⟩ := hrounds hn
    rw [List.cons_append, parseUnary, ih e n rest rfl (by omega) hfollow]
  | @unary ts e h ih =>
    rintro _ n rest ⟨⟩ hn hfollow
    obtain ⟨n, rfl, hn⟩ := hrounds hn
    have hatom := ih e n rest rfl (by omega) hfollow
    obtain ⟨t, us, rfl, ht⟩ : ∃ t us, ts = t :: us ∧ t ≠ .not := by
      cases h <;> exact ⟨_, _, rfl, by simp⟩
    rwa [List.cons_append, parseUnary]
    rintro toks heq
    exact ht (List.cons.inj heq).1
  | @group ts e h ih =>
    rintro _ n rest ⟨⟩ hn hfollow
    rw [List.length_cons, List.length_append, List.length_singleton] at hn
    obtain ⟨n, rfl, hn⟩ := hrounds hn
    rw [List.cons_append, List.append_assoc, List.singleton_append, parseAtom,
      ih e n _ rfl (by omega) (follow_closing (.inl rfl))]
  | @require ts e es h ih =>
    rintro _ n rest ⟨⟩ hn hfollow
    rw [List.length_cons, List.length_cons, List.length_append, List.length_singleton] at hn
    obtain ⟨n, rfl, hn⟩ := hrounds hn
    rw [List.cons_append, List.cons_append, List.append_assoc, List.singleton_append, parseAtom,
      ih e es n rest rfl (by omega)]
  | «exists» =>
    rintro _ n rest ⟨⟩ hn hfollow
    obtain ⟨n, rfl, hn⟩ := hrounds hn
    rfl
  | @comparison _ operator operand _ _ hop hvalue =>
    rintro _ n rest ⟨⟩ hn hfollow
    obtain ⟨n, rfl, hn⟩ := hrounds hn
    cases operator <;> cases hop <;> cases operand <;> cases hvalue <;> rfl
  | member =>
    rintro _ n rest ⟨⟩ hn hfollow
    obtain ⟨n, rfl, hn⟩ := hrounds hn
    rfl
  | notMember =>
    rintro _ n rest ⟨⟩ hn hfollow
    obtain ⟨n, rfl, hn⟩ := hrounds hn
    rfl
  | path =>
    rintro _ n rest ⟨⟩ hn hfollow
    obtain ⟨n, rfl, hn⟩ := hrounds hn
    cases rest with
    | nil => rfl
    | cons t rest =>
      have ht : continuesPath t = false := hfollow t rfl
      cases t <;> first | rfl | cases ht
  | @lastArg ts e h ih =>
    rintro _ _ n rest ⟨⟩ hn
    obtain ⟨n, rfl, hn⟩ := hrounds hn
    rw [requireOperands, ih e n _ rfl (by omega) (follow_closing (.inl rfl))]
  | @arg ts us e e' es hfirst hmore ihfirst ihmore =>
    rintro _ _ n rest ⟨⟩ hn
    rw [List.length_append, List.length_cons] at hn
    obtain ⟨n, rfl, hn⟩ := hrounds hn
    rw [List.append_assoc, List.cons_append, requireOperands,
      ihfirst e n _ rfl (by omega) (follow_closing (.inr rfl))]
    dsimp only
    rw [ihmore e' es n rest rfl (by omega)]

theorem parseTokens_eq_ok_iff {toks : List Tok} {e : Expression} :
    parseTokens toks = .ok e ↔ Derives .predicate toks [e] := by
  constructor
  · intro h
    rw [parseTokens] at h
    split at h
    · cases h
    · rename_i hparse
      cases h
      obtain ⟨ts, rfl, hts⟩ := (soundAt _).or hparse
      rwa [List.append_nil]
    · cases h
  · intro h
    have hparse := taken_of_derives h e (4 * toks.length + 4) [] rfl (Nat.le_succ _) nofun
    rw [List.append_nil] at hparse
    rw [parseTokens, hparse]

theorem parsePredicate_eq_ok_iff (src : String) (e : Expression) :
    parsePredicate src = .ok e ↔ IsPredicate AcceptedPath src e := by
  rw [parsePredicate]
  constructor
  · intro h
    split at h
    · cases h
    rename_i toks htoks
    split at h
    · rename_i expr hparse
      cases h
      exact ⟨toks, tokenize_eq_ok_iff.1 htoks, parseTokens_eq_ok_iff.1 hparse⟩
    · cases h
  · rintro ⟨toks, htoks, hparse⟩
    rw [tokenize_eq_ok_iff.2 htoks]
    dsimp only
    rw [parseTokens_eq_ok_iff.2 hparse]

/-- The parser accepts exactly the predicates of the grammar, and returns what the derivation
denotes. The tree of `require(P)` has the verdicts of `!P`. -/
theorem parsePredicate_decides_grammar :
    (∀ src e, parsePredicate src = .ok e ↔ IsPredicate AcceptedPath src e) ∧
      ∀ bag e, evalExpression bag (normalizeNot e) = evalExpression bag (.not e) :=
  ⟨parsePredicate_eq_ok_iff, evalExpression_normalizeNot⟩

end Completeness

section Documented

def dotsLead : List Char → Bool
  | [] => true
  | c :: cs =>
    (c != '.' || cs.head?.any fun d => isIdentStart d || d == '$') && dotsLead cs

variable {c : Char} {cs : List Char}

theorem dotsLead_cons (h : c ≠ '.') :
    dotsLead (c :: cs) = dotsLead cs := by
  simp [dotsLead, h]

theorem dotsLead_dot (h : (isIdentStart c || c == '$') = true) :
    dotsLead ('.' :: c :: cs) = dotsLead (c :: cs) := by
  rw [dotsLead, List.head?_cons, Option.any_some, h]
  simp

theorem dotsLead_append {rest : List Char} (h : '.' ∉ cs) :
    dotsLead (cs ++ rest) = dotsLead rest := by
  induction cs with
  | nil => rfl
  | cons c cs ih =>
    obtain ⟨hc, hcs⟩ := not_or.1 (mt List.mem_cons.2 h)
    rw [List.cons_append, dotsLead_cons (Ne.symm hc), ih hcs]

theorem DocumentedPiece.piece {first : Bool} (h : DocumentedPiece first cs) :
    '.' ∉ cs ∧ ∃ c t, cs = c :: t ∧ (isIdentStart c || c == '$') = true := by
  have hsegment : ∀ {cs : List Char}, IsSegment cs → '.' ∉ cs := fun h => h.isName.dot_notMem
  cases h with
  | segment h =>
    refine ⟨hsegment h, ?_⟩
    obtain ⟨hc, -⟩ := h
    exact ⟨_, _, rfl, by simp [hc]⟩
  | reserved h => exact ⟨by simpa using hsegment h, '$', _, rfl, by simp⟩

theorem DocumentedPath.dotsLead_append {first : Bool} {text : List Char}
    (h : DocumentedPath first text) :
    (∀ rest, dotsLead (text ++ rest) = dotsLead rest) ∧
      ∃ c t, text = c :: t ∧ (isIdentStart c || c == '$') = true := by
  induction h with
  | last hpiece =>
    exact ⟨fun rest => PraxisPolicy.dotsLead_append hpiece.piece.1, hpiece.piece.2⟩
  | lastSubscript hpiece _ _ ih =>
    obtain ⟨hdot, c, t, rfl, hc⟩ := hpiece.piece
    refine ⟨fun rest => ?_, c, _, rfl, hc⟩
    rw [List.append_assoc, PraxisPolicy.dotsLead_append hdot, List.cons_append, List.append_assoc,
      dotsLead_cons (by decide), ih.1, List.singleton_append, dotsLead_cons (by decide)]
  | more hpiece _ ih =>
    obtain ⟨hdot, c, t, rfl, hc⟩ := hpiece.piece
    obtain ⟨hrest, d, u, rfl, hd⟩ := ih
    refine ⟨fun rest => ?_, c, _, rfl, hc⟩
    rw [List.append_assoc, PraxisPolicy.dotsLead_append hdot, List.cons_append, List.cons_append,
      dotsLead_dot hd, ← List.cons_append, hrest]
  | moreSubscript hpiece _ _ _ ihinner ihrest =>
    obtain ⟨hdot, c, t, rfl, hc⟩ := hpiece.piece
    obtain ⟨hrest, d, u, rfl, hd⟩ := ihrest
    refine ⟨fun rest => ?_, c, _, rfl, hc⟩
    rw [List.append_assoc, PraxisPolicy.dotsLead_append hdot, List.cons_append, List.append_assoc,
      dotsLead_cons (by decide), ihinner.1, List.cons_append, List.cons_append, List.cons_append,
      dotsLead_cons (by decide), dotsLead_dot hd, ← List.cons_append, hrest]

theorem Shape.path_of_lead {Path : List Char → Prop} (h : Shape Path (c :: cs))
    (hlead : lead c = .name ∨ lead c = .other) : Path (c :: cs) := by
  cases h with
  | symbol h =>
    obtain ⟨_, _, heq, hsymbol⟩ := exists_of_mem_symbols h
    cases heq
    simp [hsymbol] at hlead
  | literal h =>
    obtain ⟨_, _, heq, hquote⟩ := h.exists_lead
    cases heq
    simp [hquote] at hlead
  | number h =>
    obtain ⟨_, _, heq, hnumber⟩ := h.exists_lead
    cases heq
    simp [hnumber] at hlead
  | path h => exact h

theorem Shape.ne_nil_of_documented (h : Shape (DocumentedPath true) []) : False := by
  generalize htext : ([] : List Char) = text at h
  cases h with
  | symbol h =>
    obtain ⟨_, _, rfl, -⟩ := exists_of_mem_symbols h
    cases htext
  | literal h =>
    obtain ⟨_, _, rfl, -⟩ := h.exists_lead
    cases htext
  | number h =>
    obtain ⟨_, _, rfl, -⟩ := h.exists_lead
    cases htext
  | path h =>
    obtain ⟨_, _, rfl, -⟩ := h.dotsLead_append.2
    cases htext

variable [Library]

theorem not_lexes_dot {toks : List Tok} :
    ¬ Lexes (DocumentedPath true) ('.' :: cs) toks := by
  intro h
  generalize hsrc : '.' :: cs = src at h
  cases h with
  | nil => cases hsrc
  | blank hc _ =>
    cases hsrc
    exact absurd hc (by decide)
  | @token text rest tok toks htoken _ =>
    cases text with
    | nil => exact htoken.shape.ne_nil_of_documented
    | cons c text =>
      cases hsrc
      obtain ⟨-, _, _, heq, hstart⟩ := (htoken.shape.path_of_lead (by decide)).dotsLead_append
      cases heq
      exact absurd hstart (by decide)

theorem not_lexes_digit_segment {toks : List Tok} :
    ¬ Lexes (DocumentedPath true) ['a', '.', '1'] toks := by
  intro h
  generalize hsrc : ['a', '.', '1'] = src at h
  cases h with
  | nil => cases hsrc
  | blank hc _ =>
    cases hsrc
    exact absurd hc (by decide)
  | @token text rest tok toks htoken hrest =>
    cases text with
    | nil => exact htoken.shape.ne_nil_of_documented
    | cons c text =>
      cases text with
      | nil =>
        cases hsrc
        exact not_lexes_dot hrest
      | cons d text =>
        obtain ⟨rfl, htail⟩ := List.cons.inj hsrc
        obtain ⟨-, hone⟩ := List.cons.inj htail
        have hdot : '.' ∉ rest := fun hmem =>
          absurd (hone.symm ▸ List.mem_append_right text hmem : '.' ∈ ['1']) (by decide)
        obtain ⟨hdots, -⟩ := (htoken.shape.path_of_lead (by decide)).dotsLead_append
        have hrest := @PraxisPolicy.dotsLead_append rest [] hdot
        have hsame := hdots rest
        rw [← hsrc] at hsame
        rw [List.append_nil, ← hsame] at hrest
        exact absurd hrest (by decide)

end Documented

section Difference

local instance grammarLibrary : Library := Library.ascii

local instance grammarFloats : FloatText := ⟨fun value => toString (value.scaled / 2 ^ 1074)⟩

/-- The parser reads `a.1`, which is no documented path, and refuses a documented subscript in a
subscript. -/
theorem documented_paths_differ :
    ((parsePredicate "a.1").isOk = true ∧ ∀ e, ¬ IsPredicate (DocumentedPath true) "a.1" e) ∧
      IsPredicate (DocumentedPath true) "a[b[c]]" (.condition (.isTrue "a[b[c]]")) ∧
        (parsePredicate "a[b[c]]").isOk = false := by
  have hsegment : ∀ {c : Char}, isIdentStart c = true → DocumentedPiece true [c] := fun hc =>
    .segment (.mk hc (by simp))
  have hpath : DocumentedPath true "a[b[c]]".toList :=
    .lastSubscript (hsegment (by decide))
      (.lastSubscript (hsegment (by decide)) (.last (hsegment (by decide))) (by decide)) (by decide)
  refine ⟨⟨by decide, ?_⟩, ?_, by decide⟩
  · rintro e ⟨toks, hlexes, -⟩
    exact not_lexes_digit_segment hlexes
  · refine ⟨[.ident "a[b[c]]"], ?_, ?_⟩
    · have htoken : IsToken (DocumentedPath true) "a[b[c]]".toList (.ident "a[b[c]]") [] := by
        refine ⟨.path hpath, ?_, ?_, ?_⟩
        · rintro more ⟨after, hmore⟩ hne
          exact absurd (List.append_eq_nil_iff.1 hmore).1 hne
        · exact .path hpath (fun tok hmem => (reservedWords_spec hmem).2.1 (by decide)) (by decide)
        · exact separated_of_lead (by decide) (by decide)
      exact .token htoken .nil
    · exact .predicate (.conjunction (.unary .path) .noFactor) .noAlternative

end Difference

end PraxisPolicy
