import IceTunnel.CommandLine
import IceTunnel.Foundation.StableSorting

/-!
What `init` does with a command line.  It goes through the words once for each option of the
table; the pieces of the command line are the same every time.
-/

namespace IceTunnel.CommandLine

open Params StableSorting

/-- A piece of the command line: an option with its arguments, or an unknown word. -/
structure Token where
  index : Nat
  word : String
  /-- The option's number in the table. -/
  option : Option (Nat × Param)
  args : List String

/-- `"--" + param.name == arg` -/
def hasName (word : String) (entry : Param × Nat) : Bool :=
  decide ("--" ++ entry.1.name = word)

/-- The first option of the table with this name. -/
def lookup (params : List Param) (word : String) : Option (Nat × Param) :=
  (params.zipIdx.find? (hasName word)).map Prod.swap

/-- The number of arguments of an option, 0 for an unknown word. -/
def argsCount (option : Option (Nat × Param)) : Nat :=
  (option.map fun (_, param) => param.argsCount).getD 0

/-- The pieces of the words from `i` on, of which some are skipped. -/
def tokensFrom (params : List Param) : Nat → Nat → List String → List Token
  | _, _, [] => []
  | skip + 1, i, _ :: words => tokensFrom params skip (i + 1) words
  | 0, i, word :: words =>
      let option := lookup params word
      ⟨i, word, option, words.take (argsCount option)⟩ ::
        tokensFrom params (argsCount option) (i + 1) words

/-- The pieces of the command line from left to right. -/
def tokens (params : List Param) (argv : List String) : List Token :=
  tokensFrom params 0 1 (argv.drop 1)

namespace Token

/-- All arguments are there. -/
def IsComplete (token : Token) : Prop :=
  token.args.length = argsCount token.option

instance (token : Token) : Decidable token.IsComplete :=
  inferInstanceAs (Decidable (_ = _))

def call? (token : Token) : Option HandlerCall :=
  token.option.map fun (p, _) => ⟨p, token.index⟩

/-- The word at `k` is the option or one of its arguments. -/
def Covers (token : Token) (k : Nat) : Prop :=
  token.option.isSome = true ∧ token.index ≤ k ∧ k ≤ token.index + argsCount token.option

end Token

/-- What is to be done with a command line. -/
structure Processed (params : List Param) (argv : List String) (x : Progress) : Prop where
  /-- No handler is called without its arguments. -/
  present : ∀ call ∈ x.calls, ∀ param ∈ params[call.param]?,
    call.index + param.argsCount < argv.length
  /-- The options are applied once each, in the order of the table. -/
  calls : x.calls = ((tokens params argv).filterMap Token.call?).mergeSort (byKey HandlerCall.param)
  /-- Nothing is set after a listener may have been created. -/
  settingsFirst : x.calls.Pairwise fun a b => ∀ first ∈ params[a.param]?, ∀ second ∈ params[b.param]?,
    ¬Keeps Settings.listeners first.func → Keeps Settings.values second.func
  length : x.processed.length = argv.length
  /-- The words of the options are marked, and no others. -/
  marked : ∀ k, x.processed[k]? = some true ↔ ∃ token ∈ tokens params argv, token.Covers k

section Marking

/-- The flags from `i` to `i + argsCount` are set, and no others. -/
def Marks (i argsCount : Nat) (before after : List Bool) : Prop :=
  after.length = before.length ∧
    ∀ k, after[k]? = some true ↔ before[k]? = some true ∨ i ≤ k ∧ k ≤ i + argsCount

/-- The first turns of the loop that marks. -/
def markTurns (i turns : Nat) (processed : List Bool) : Option (List Bool) :=
  (List.range turns).foldlM
    (fun processed j =>
      if i + j < processed.length then some (processed.set (i + j) true) else none) processed

theorem markTurns_succ (i turns : Nat) (before : List Bool) :
    markTurns i (turns + 1) before = (markTurns i turns before).bind fun processed =>
      if i + turns < processed.length then some (processed.set (i + turns) true) else none := by
  rw [markTurns, List.range_succ, List.foldlM_append, markTurns]
  simp only [List.foldlM_cons, List.foldlM_nil, Option.bind_eq_bind, Option.pure_def,
    Option.bind_fun_some]

theorem markTurns_eq_some {i turns : Nat} {before after : List Bool}
    (h : markTurns i turns before = some after) :
    after.length = before.length ∧ (∀ j < turns, i + j < before.length) ∧
      ∀ k, after[k]? = some true ↔ before[k]? = some true ∨ i ≤ k ∧ k < i + turns := by
  induction turns generalizing after with
  | zero =>
      obtain rfl := Option.some.inj h
      refine ⟨rfl, fun j hj => (Nat.not_lt_zero j hj).elim, fun k => ?_⟩
      constructor
      · exact .inl
      · rintro (hk | ⟨h₁, h₂⟩)
        · exact hk
        · omega
  | succ turns ih =>
      rw [markTurns_succ, Option.bind_eq_some_iff] at h
      obtain ⟨middle, hmiddle, hlast⟩ := h
      obtain ⟨hlength, hinside, hmarked⟩ := ih hmiddle
      rw [Option.ite_none_right_eq_some] at hlast
      obtain ⟨hlt, hset⟩ := hlast
      obtain rfl := Option.some.inj hset
      refine ⟨by rw [List.length_set, hlength], fun j hj => ?_, fun k => ?_⟩
      · rcases Nat.lt_succ_iff_lt_or_eq.mp hj with hj | rfl
        · exact hinside j hj
        · rw [← hlength]
          exact hlt
      · rw [List.getElem?_set]
        split
        · simp only [true_iff]
          right
          omega
        · rw [hmarked]
          constructor
          · exact fun hor => hor.imp_right fun hk => by omega
          · exact fun hor => hor.imp_right fun hk => by omega

theorem markTurns_isSome {i turns : Nat} {before : List Bool} (h : i + turns ≤ before.length) :
    ∃ after, markTurns i turns before = some after := by
  induction turns with
  | zero => exact ⟨before, rfl⟩
  | succ turns ih =>
      obtain ⟨middle, hmiddle⟩ := ih (by omega)
      have hlength := (markTurns_eq_some hmiddle).1
      refine ⟨middle.set (i + turns) true, ?_⟩
      rw [markTurns_succ, hmiddle, Option.bind_some, if_pos (by omega)]

theorem mark_eq_some {i argsCount : Nat} {before after : List Bool}
    (h : mark i argsCount before = some after) :
    i + argsCount < before.length ∧ Marks i argsCount before after := by
  obtain ⟨hlength, hinside, hmarked⟩ := markTurns_eq_some h
  refine ⟨hinside argsCount (Nat.lt_succ_self _), hlength, fun k => (hmarked k).trans ?_⟩
  rw [← Nat.add_assoc, Nat.lt_succ_iff]

end Marking

section Words

variable {params : List Param} {argv : List String}

theorem printArgs_isSome {i argsCount : Nat} (h : i + argsCount < argv.length) (out : String) :
    ∃ printed, printArgs argv i argsCount out = some printed := by
  have hturns : ∀ turns ≤ argsCount, ∃ printed, printArgs argv i turns out = some printed := by
    intro turns
    induction turns with
    | zero => exact fun _ => ⟨out, rfl⟩
    | succ turns ih =>
        intro hle
        obtain ⟨printed, hprinted⟩ := ih (by omega)
        rw [printArgs] at hprinted
        rw [printArgs, List.range_succ, List.foldlM_append, hprinted]
        simp only [List.foldlM_cons, List.foldlM_nil, Option.bind_eq_bind, Option.bind_some,
          List.getElem?_eq_getElem (show i + 1 + turns < argv.length by omega), Option.map_some]
        exact ⟨_, rfl⟩
  exact hturns argsCount (le_refl _)

theorem applyParam_isOk {p i : Nat} {param : Param} {x : Progress}
    (htakes : Takes param.argsCount param.func) (hlength : x.processed.length = argv.length)
    (hinside : i + param.argsCount < argv.length) : ∃ y, applyParam argv p i param x = .ok y := by
  obtain ⟨⟨settings, success⟩, hfunc⟩ := Option.isSome_iff_exists.mp
    (htakes x.settings (argv.drop i) (by rw [List.length_drop]; omega))
  have hroom : i + (param.argsCount + 1) ≤ x.processed.length := by omega
  obtain ⟨processed, hmark⟩ := markTurns_isSome hroom
  change mark i param.argsCount x.processed = some processed at hmark
  obtain ⟨printed, hprinted⟩ := printArgs_isSome hinside
    (x.out ++ "cannot set param --" ++ param.name)
  cases success with
  | true =>
      simp only [applyParam, hfunc, if_true, hmark]
      exact ⟨_, rfl⟩
  | false =>
      simp only [applyParam, hfunc, Bool.false_eq_true, if_false, hprinted, Option.map_some, hmark]
      exact ⟨_, rfl⟩

theorem applyParam_eq_ok {p i : Nat} {param : Param} {x y : Progress}
    (hlength : x.processed.length = argv.length) (h : applyParam argv p i param x = .ok y) :
    i + param.argsCount < argv.length ∧ y.calls = x.calls ++ [⟨p, i⟩] ∧
      Marks i param.argsCount x.processed y.processed := by
  simp only [applyParam] at h
  split at h
  · cases h
  · split at h
    · cases h
    · split at h
      · cases h
      · rename_i hmark
        obtain ⟨hinside, hmarks⟩ := mark_eq_some hmark
        obtain rfl := Except.ok.inj h
        exact ⟨hlength ▸ hinside, rfl, hmarks⟩

/-- A handler has been called without all its arguments. -/
def Overruns (params : List Param) (argv : List String) (x : Progress) : Prop :=
  ∃ call ∈ x.calls, ∃ param ∈ params[call.param]?, argv.length ≤ call.index + param.argsCount

theorem applyParam_error {p i : Nat} {param : Param} {x y : Progress}
    (htakes : Takes param.argsCount param.func) (hlength : x.processed.length = argv.length)
    (hparam : params[p]? = some param) (h : applyParam argv p i param x = .error y) :
    Overruns params argv y := by
  have hend : argv.length ≤ i + param.argsCount := by
    by_contra hinside
    obtain ⟨z, hz⟩ := applyParam_isOk (p := p) htakes hlength (not_le.mp hinside)
    rw [hz] at h
    cases h
  have hcalls : y.calls = x.calls ++ [⟨p, i⟩] := by
    simp only [applyParam] at h
    split at h
    · obtain rfl := Except.error.inj h
      rfl
    · split at h
      · obtain rfl := Except.error.inj h
        rfl
      · split at h
        · obtain rfl := Except.error.inj h
          rfl
        · cases h
  refine ⟨⟨p, i⟩, ?_, param, hparam, hend⟩
  rw [hcalls]
  simp

theorem matchLoop_of_none {p i pp : Nat} {arg : String} {table : List Param} {x : Progress}
    (h : (table.zipIdx pp).find? (hasName arg) = none) :
    matchLoop argv p i arg pp table x = .ok (x, i) := by
  induction table generalizing pp with
  | nil => rfl
  | cons param table ih =>
      rw [List.zipIdx_cons, List.find?_cons] at h
      split at h
      · cases h
      · rename_i hname
        rw [matchLoop, if_neg (of_decide_eq_false hname)]
        exact ih h

theorem matchLoop_of_some {p i pp q : Nat} {arg : String} {table : List Param} {param : Param}
    {x : Progress} (h : (table.zipIdx pp).find? (hasName arg) = some (param, q)) :
    matchLoop argv p i arg pp table x =
      (if p = q then applyParam argv p i param x else .ok x).map fun x => (x, i + param.argsCount) := by
  induction table generalizing pp with
  | nil => cases h
  | cons first table ih =>
      rw [List.zipIdx_cons, List.find?_cons] at h
      split at h
      · rename_i hname
        obtain ⟨rfl, rfl⟩ := Prod.mk.inj (Option.some.inj h)
        rw [matchLoop, if_pos (of_decide_eq_true hname)]
      · rename_i hname
        rw [matchLoop, if_neg (of_decide_eq_false hname)]
        exact ih h

end Words

section Tokens

variable {params : List Param} {argv : List String}

theorem lookup_eq_some {word : String} {q : Nat} {param : Param}
    (h : lookup params word = some (q, param)) :
    params.zipIdx.find? (hasName word) = some (param, q) ∧ params[q]? = some param := by
  obtain ⟨⟨found, number⟩, hfind, hswap⟩ := Option.map_eq_some_iff.mp h
  obtain ⟨rfl, rfl⟩ := Prod.mk.inj hswap
  exact ⟨hfind, List.mem_zipIdx_iff_getElem?.mp (List.mem_of_find?_eq_some hfind)⟩

theorem tokensFrom_skip (skip i : Nat) (words : List String) :
    tokensFrom params skip i words = tokensFrom params 0 (i + skip) (words.drop skip) := by
  induction skip generalizing i words with
  | zero => rfl
  | succ skip ih =>
      cases words with
      | nil => simp [tokensFrom]
      | cons word words =>
          rw [tokensFrom, ih, List.drop_succ_cons]
          congr 1
          omega

/-- The pieces of the command line from the word at `i` on. -/
def tokensAt (params : List Param) (argv : List String) (i : Nat) : List Token :=
  tokensFrom params 0 i (argv.drop i)

theorem tokensAt_of_none {i : Nat} (h : argv[i]? = none) : tokensAt params argv i = [] := by
  rw [tokensAt, List.drop_eq_nil_of_le (List.getElem?_eq_none_iff.mp h), tokensFrom]

theorem tokensAt_of_some {i : Nat} {arg : String} (h : argv[i]? = some arg) :
    tokensAt params argv i =
      ⟨i, arg, lookup params arg, (argv.drop (i + 1)).take (argsCount (lookup params arg))⟩ ::
        tokensAt params argv (i + argsCount (lookup params arg) + 1) := by
  obtain ⟨hlt, harg⟩ := List.getElem?_eq_some_iff.mp h
  have hnext : i + argsCount (lookup params arg) + 1 = i + 1 + argsCount (lookup params arg) := by
    omega
  rw [tokensAt, List.drop_eq_getElem_cons hlt, harg, tokensFrom, tokensFrom_skip, List.drop_drop,
    tokensAt, hnext]

theorem isComplete_iff {i : Nat} {arg : String} {option : Option (Nat × Param)} (hlt : i < argv.length) :
    Token.IsComplete ⟨i, arg, option, (argv.drop (i + 1)).take (argsCount option)⟩ ↔
      i + argsCount option < argv.length := by
  simp only [Token.IsComplete, List.length_take, List.length_drop]
  omega

theorem getElem?_none_or_some (i : Nat) : argv[i]? = none ∨ ∃ arg, argv[i]? = some arg := by
  cases argv[i]? with
  | none => exact .inl rfl
  | some arg => exact .inr ⟨arg, rfl⟩

end Tokens

section Passes

variable {params : List Param} {argv : List String}

/-- The calls of one option. -/
def callsOf (p : Nat) (tokens : List Token) : List HandlerCall :=
  (tokens.filterMap Token.call?).filter fun call => decide (call.param = p)

/-- What the loop over `i` does for the option `p`. -/
structure Pass (p : Nat) (tokens : List Token) (x y : Progress) : Prop where
  complete : ∀ token ∈ tokens, token.option.map Prod.fst = some p → token.IsComplete
  calls : y.calls = x.calls ++ callsOf p tokens
  length : y.processed.length = x.processed.length
  marked : ∀ k, y.processed[k]? = some true ↔ x.processed[k]? = some true ∨
    ∃ token ∈ tokens, token.option.map Prod.fst = some p ∧ token.Covers k

theorem Pass.nil (p : Nat) (x : Progress) : Pass p [] x x := by
  refine ⟨fun token htoken => (List.not_mem_nil htoken).elim, ?_, rfl, fun k => ?_⟩
  · rw [callsOf, List.filterMap_nil, List.filter_nil, List.append_nil]
  · simp

theorem Pass.skip {p : Nat} {token : Token} {tokens : List Token} {x y : Progress}
    (htoken : token.option.map Prod.fst ≠ some p) (h : Pass p tokens x y) :
    Pass p (token :: tokens) x y := by
  obtain ⟨hcomplete, hcalls, hlength, hmarked⟩ := h
  refine ⟨?_, ?_, hlength, fun k => ?_⟩
  · intro other hother hoption
    rcases List.mem_cons.mp hother with rfl | hother
    · exact absurd hoption htoken
    · exact hcomplete other hother hoption
  · rw [hcalls, callsOf, callsOf, List.filterMap_cons]
    cases hoption : token.option with
    | none => simp [Token.call?, hoption]
    | some entry =>
        have hne : entry.1 ≠ p := by
          rintro rfl
          exact htoken (by rw [hoption]; rfl)
        simp [Token.call?, hoption, hne]
  · rw [hmarked]
    simp only [List.mem_cons, exists_eq_or_imp, htoken, false_and, false_or]

theorem Pass.apply {p i : Nat} {token : Token} {tokens : List Token} {param : Param} {x y z : Progress}
    (hoption : token.option = some (p, param)) (hindex : token.index = i) (hcomplete : token.IsComplete)
    (hcalls : y.calls = x.calls ++ [⟨p, i⟩]) (hmarks : Marks i param.argsCount x.processed y.processed)
    (h : Pass p tokens y z) : Pass p (token :: tokens) x z := by
  have hsome : token.option.map Prod.fst = some p := by
    rw [hoption]
    rfl
  have hcount : argsCount token.option = param.argsCount := by
    rw [hoption]
    rfl
  refine ⟨?_, ?_, h.length.trans hmarks.1, fun k => ?_⟩
  · intro other hother hother'
    rcases List.mem_cons.mp hother with rfl | hother
    · exact hcomplete
    · exact h.complete other hother hother'
  · rw [h.calls, hcalls, callsOf, callsOf, List.filterMap_cons]
    simp [Token.call?, hoption, hindex]
  · have hcovers : token.Covers k ↔ i ≤ k ∧ k ≤ i + param.argsCount := by
      rw [Token.Covers, hcount, hindex, hoption]
      simp only [Option.isSome_some, true_and]
    rw [h.marked, hmarks.2, or_assoc]
    simp only [List.mem_cons, exists_eq_or_imp, hsome, true_and, hcovers]

end Passes

section Init

variable {params : List Param} {argv : List String}

theorem find?_of_lookup_none {word : String} (h : lookup params word = none) :
    params.zipIdx.find? (hasName word) = none :=
  Option.map_eq_none_iff.mp h

theorem wordLoop_pass {p turns i : Nat} {x y : Progress} (hturns : argv.length ≤ i + turns)
    (hlength : x.processed.length = argv.length) (h : wordLoop params argv p turns i x = .ok y) :
    Pass p (tokensAt params argv i) x y := by
  induction turns generalizing i x with
  | zero =>
      obtain rfl := Except.ok.inj h
      have hend : argv.length ≤ i := hturns
      rw [tokensAt_of_none (List.getElem?_eq_none hend)]
      exact .nil p x
  | succ turns ih =>
      rcases getElem?_none_or_some i with hnone | ⟨arg, harg⟩
      · rw [wordLoop, hnone] at h
        obtain rfl := Except.ok.inj h
        rw [tokensAt_of_none hnone]
        exact .nil p x
      · rw [wordLoop, harg] at h
        rw [tokensAt_of_some harg]
        cases hlookup : lookup params arg with
        | none =>
            simp only [matchLoop_of_none (find?_of_lookup_none hlookup)] at h
            exact .skip (by simp) (ih (by omega) hlength h)
        | some entry =>
            obtain ⟨q, param⟩ := entry
            simp only [matchLoop_of_some (lookup_eq_some hlookup).1] at h
            by_cases hp : p = q
            · subst hp
              rw [if_pos rfl] at h
              cases happly : applyParam argv p i param x with
              | error z =>
                  rw [happly] at h
                  cases h
              | ok z =>
                  rw [happly] at h
                  obtain ⟨hinside, hcalls, hmarks⟩ := applyParam_eq_ok hlength happly
                  refine .apply rfl rfl ?_ hcalls hmarks (ih ?_ (hmarks.1.trans hlength) h)
                  · exact (isComplete_iff (by omega)).mpr hinside
                  · change argv.length ≤ i + param.argsCount + 1 + turns
                    omega
            · rw [if_neg hp] at h
              refine .skip ?_ (ih ?_ hlength h)
              · rintro heq
                exact hp (Option.some.inj heq).symm
              · change argv.length ≤ i + param.argsCount + 1 + turns
                omega

theorem wordLoop_isOk (htakes : ∀ param ∈ params, Takes param.argsCount param.func) {p turns i : Nat}
    {x : Progress} (hlength : x.processed.length = argv.length)
    (hcomplete : ∀ token ∈ tokensAt params argv i, token.IsComplete) :
    ∃ y, wordLoop params argv p turns i x = .ok y := by
  induction turns generalizing i x with
  | zero => exact ⟨x, rfl⟩
  | succ turns ih =>
      rw [wordLoop]
      rcases getElem?_none_or_some i with hnone | ⟨arg, harg⟩
      · rw [hnone]
        exact ⟨x, rfl⟩
      · rw [tokensAt_of_some harg, List.forall_mem_cons] at hcomplete
        obtain ⟨hfirst, hrest⟩ := hcomplete
        have hlt := (List.getElem?_eq_some_iff.mp harg).1
        rw [isComplete_iff hlt] at hfirst
        rw [harg]
        cases hlookup : lookup params arg with
        | none =>
            rw [hlookup] at hrest
            simp only [matchLoop_of_none (find?_of_lookup_none hlookup)]
            exact ih hlength hrest
        | some entry =>
            obtain ⟨q, param⟩ := entry
            obtain ⟨hfind, hparam⟩ := lookup_eq_some hlookup
            rw [hlookup] at hfirst hrest
            simp only [matchLoop_of_some hfind]
            by_cases hp : p = q
            · rw [if_pos hp]
              obtain ⟨y, hy⟩ := applyParam_isOk (p := p) (htakes param (List.mem_of_getElem? hparam))
                hlength hfirst
              rw [hy]
              have hmarks := (applyParam_eq_ok hlength hy).2.2
              exact ih (hmarks.1.trans hlength) hrest
            · rw [if_neg hp]
              exact ih hlength hrest

/-- Where the loop does not get to its end, a handler has been called without its arguments. -/
theorem wordLoop_error (htakes : ∀ param ∈ params, Takes param.argsCount param.func) {p turns i : Nat}
    {x y : Progress} (hlength : x.processed.length = argv.length)
    (h : wordLoop params argv p turns i x = .error y) : Overruns params argv y := by
  induction turns generalizing i x with
  | zero => cases h
  | succ turns ih =>
      rw [wordLoop] at h
      rcases getElem?_none_or_some i with hnone | ⟨arg, harg⟩
      · rw [hnone] at h
        cases h
      · rw [harg] at h
        cases hlookup : lookup params arg with
        | none =>
            simp only [matchLoop_of_none (find?_of_lookup_none hlookup)] at h
            exact ih hlength h
        | some entry =>
            obtain ⟨q, param⟩ := entry
            obtain ⟨hfind, hparam⟩ := lookup_eq_some hlookup
            simp only [matchLoop_of_some hfind] at h
            by_cases hp : p = q
            · subst hp
              rw [if_pos rfl] at h
              cases happly : applyParam argv p i param x with
              | error z =>
                  rw [happly] at h
                  obtain rfl := Except.error.inj h
                  exact applyParam_error (htakes param (List.mem_of_getElem? hparam)) hlength hparam happly
              | ok z =>
                  rw [happly] at h
                  have hmarks := (applyParam_eq_ok hlength happly).2.2
                  exact ih (hmarks.1.trans hlength) h
            · rw [if_neg hp] at h
              exact ih hlength h

/-- The first turns of the loop over `p`. -/
def paramTurns (params : List Param) (argv : List String) (turns : Nat) (x : Progress) :
    Except Progress Progress :=
  (List.range turns).foldlM (fun x p => wordLoop params argv p argv.length 1 x) x

theorem paramTurns_succ (turns : Nat) (x : Progress) :
    paramTurns params argv (turns + 1) x =
      (paramTurns params argv turns x).bind fun x => wordLoop params argv turns argv.length 1 x := by
  rw [paramTurns, List.range_succ, List.foldlM_append, paramTurns]
  simp only [List.foldlM_cons, List.foldlM_nil, bind_pure]
  rfl

/-- What the loop over `p` does in its first turns. -/
structure Passes (turns : Nat) (tokens : List Token) (x y : Progress) : Prop where
  complete : ∀ token ∈ tokens, ∀ entry ∈ token.option, entry.1 < turns → token.IsComplete
  calls : y.calls = x.calls ++ (List.range turns).flatMap fun p => callsOf p tokens
  length : y.processed.length = x.processed.length
  marked : ∀ k, y.processed[k]? = some true ↔ x.processed[k]? = some true ∨
    ∃ token ∈ tokens, (∃ entry ∈ token.option, entry.1 < turns) ∧ token.Covers k

theorem Passes.next {turns : Nat} {tokens : List Token} {x y z : Progress} (h : Passes turns tokens x y)
    (hpass : Pass turns tokens y z) : Passes (turns + 1) tokens x z := by
  refine ⟨?_, ?_, hpass.length.trans h.length, fun k => ?_⟩
  · intro token htoken entry hentry hlt
    rcases Nat.lt_succ_iff_lt_or_eq.mp hlt with hlt | heq
    · exact h.complete token htoken entry hentry hlt
    · exact hpass.complete token htoken (Option.map_eq_some_iff.mpr ⟨entry, hentry, heq⟩)
  · rw [hpass.calls, h.calls, List.range_succ, List.flatMap_append, List.flatMap_singleton,
      List.append_assoc]
  · rw [hpass.marked, h.marked, or_assoc]
    refine or_congr_right ?_
    constructor
    · rintro (⟨token, htoken, ⟨entry, hentry, hlt⟩, hcovers⟩ | ⟨token, htoken, hoption, hcovers⟩)
      · exact ⟨token, htoken, ⟨entry, hentry, Nat.lt_succ_of_lt hlt⟩, hcovers⟩
      · obtain ⟨entry, hentry, rfl⟩ := Option.map_eq_some_iff.mp hoption
        exact ⟨token, htoken, ⟨entry, hentry, Nat.lt_succ_self _⟩, hcovers⟩
    · rintro ⟨token, htoken, ⟨entry, hentry, hlt⟩, hcovers⟩
      rcases Nat.lt_succ_iff_lt_or_eq.mp hlt with hlt | heq
      · exact .inl ⟨token, htoken, ⟨entry, hentry, hlt⟩, hcovers⟩
      · exact .inr ⟨token, htoken, Option.map_eq_some_iff.mpr ⟨entry, hentry, heq⟩, hcovers⟩

theorem paramTurns_passes {turns : Nat} {x y : Progress} (hlength : x.processed.length = argv.length)
    (h : paramTurns params argv turns x = .ok y) : Passes turns (tokens params argv) x y := by
  induction turns generalizing y with
  | zero =>
      obtain rfl := Except.ok.inj h
      refine ⟨fun _ _ _ _ hlt => (Nat.not_lt_zero _ hlt).elim, ?_, rfl, fun k => ?_⟩
      · rw [List.range_zero, List.flatMap_nil, List.append_nil]
      · simp
  | succ turns ih =>
      rw [paramTurns_succ] at h
      cases hfirst : paramTurns params argv turns x with
      | error z =>
          rw [hfirst] at h
          cases h
      | ok z =>
          rw [hfirst] at h
          have hpasses := ih hfirst
          exact hpasses.next (wordLoop_pass (by omega) (hpasses.length.trans hlength) h)

theorem paramTurns_isOk (htakes : ∀ param ∈ params, Takes param.argsCount param.func) {x : Progress}
    (hlength : x.processed.length = argv.length)
    (hcomplete : ∀ token ∈ tokens params argv, token.IsComplete) (turns : Nat) :
    ∃ y, paramTurns params argv turns x = .ok y := by
  induction turns with
  | zero => exact ⟨x, rfl⟩
  | succ turns ih =>
      obtain ⟨y, hy⟩ := ih
      rw [paramTurns_succ, hy]
      exact wordLoop_isOk htakes ((paramTurns_passes hlength hy).length.trans hlength) hcomplete

theorem paramTurns_error (htakes : ∀ param ∈ params, Takes param.argsCount param.func) {turns : Nat}
    {x y : Progress} (hlength : x.processed.length = argv.length)
    (h : paramTurns params argv turns x = .error y) : Overruns params argv y := by
  induction turns with
  | zero => cases h
  | succ turns ih =>
      rw [paramTurns_succ] at h
      cases hfirst : paramTurns params argv turns x with
      | error z =>
          rw [hfirst] at h
          obtain rfl := Except.error.inj h
          exact ih hfirst
      | ok z =>
          rw [hfirst] at h
          exact wordLoop_error htakes ((paramTurns_passes hlength hfirst).length.trans hlength) h

theorem tokensAt_spec {turns i : Nat} (hturns : argv.length ≤ i + turns) :
    ∀ token ∈ tokensAt params argv i, argv[token.index]? = some token.word ∧
      token.option = lookup params token.word ∧
      token.args = (argv.drop (token.index + 1)).take (argsCount token.option) := by
  induction turns generalizing i with
  | zero =>
      have hend : argv.length ≤ i := hturns
      rw [tokensAt_of_none (List.getElem?_eq_none hend)]
      exact List.forall_mem_nil _
  | succ turns ih =>
      rcases getElem?_none_or_some i with hnone | ⟨arg, harg⟩
      · rw [tokensAt_of_none hnone]
        exact List.forall_mem_nil _
      · rw [tokensAt_of_some harg, List.forall_mem_cons]
        exact ⟨⟨harg, rfl, rfl⟩, ih (by omega)⟩

theorem tokens_spec : ∀ token ∈ tokens params argv, argv[token.index]? = some token.word ∧
    token.option = lookup params token.word ∧
    token.args = (argv.drop (token.index + 1)).take (argsCount token.option) :=
  tokensAt_spec (Nat.le_add_left argv.length 1)

theorem mem_calls {call : HandlerCall} (h : call ∈ (tokens params argv).filterMap Token.call?) :
    ∃ token ∈ tokens params argv, ∃ param, params[call.param]? = some param ∧
      token.option = some (call.param, param) ∧ token.index = call.index := by
  obtain ⟨token, htoken, hcall⟩ := List.mem_filterMap.mp h
  obtain ⟨⟨q, param⟩, hoption, rfl⟩ := Option.map_eq_some_iff.mp hcall
  have hlookup := (tokens_spec token htoken).2.1
  rw [hoption] at hlookup
  exact ⟨token, htoken, param, (lookup_eq_some hlookup.symm).2, hoption, rfl⟩

theorem Passes.processed {first : Nat} {x y : Progress}
    (hlisteners : ∀ param ∈ params.take first, Keeps Settings.listeners param.func)
    (hvalues : ∀ param ∈ params.drop first, Keeps Settings.values param.func)
    (hcalls : x.calls = []) (hprocessed : x.processed = List.replicate argv.length false)
    (h : Passes params.length (tokens params argv) x y) : Processed params argv y := by
  obtain ⟨hcomplete, hyCalls, hlength, hmarked⟩ := h
  have hin : ∀ call ∈ (tokens params argv).filterMap Token.call?, call.param < params.length := by
    intro call hcall
    obtain ⟨_, _, _, hparam, _⟩ := mem_calls hcall
    exact (List.getElem?_eq_some_iff.mp hparam).1
  have hsorted : y.calls =
      ((tokens params argv).filterMap Token.call?).mergeSort (byKey HandlerCall.param) := by
    rw [hyCalls, hcalls, List.nil_append]
    exact flatMap_filter_eq_mergeSort hin
  refine ⟨?_, hsorted, ?_, ?_, ?_⟩
  · intro call hcall param hparam
    rw [hsorted, (List.mergeSort_perm _ _).mem_iff] at hcall
    obtain ⟨token, htoken, found, hfound, hoption, hindex⟩ := mem_calls hcall
    obtain rfl := Option.some.inj (hfound.symm.trans hparam)
    have hall := hcomplete token htoken _ hoption (hin call hcall)
    obtain ⟨hword, -, hargs⟩ := tokens_spec token htoken
    have hlt := (List.getElem?_eq_some_iff.mp hword).1
    rw [Token.IsComplete, hargs, hoption, List.length_take, List.length_drop] at hall
    have hcount : argsCount (some (call.param, found)) = found.argsCount := rfl
    rw [hcount] at hall
    omega
  · rw [hsorted]
    apply (pairwise_mergeSort _).imp
    intro a b hab one hone two htwo hcreates
    by_cases hlt : a.param < first
    · have hmem : one ∈ params.take first :=
        List.mem_of_getElem? ((List.getElem?_take_of_lt hlt).trans hone)
      exact absurd (hlisteners one hmem) hcreates
    · apply hvalues
      have hbehind : (params.drop first)[b.param - first]? = some two := by
        rw [List.getElem?_drop, Nat.add_sub_cancel' (by omega)]
        exact htwo
      exact List.mem_of_getElem? hbehind
  · rw [hlength, hprocessed, List.length_replicate]
  · intro k
    rw [hmarked, hprocessed]
    have hnone : (List.replicate argv.length false)[k]? ≠ some true := by
      rw [List.getElem?_replicate]
      split <;> simp
    simp only [hnone, false_or]
    constructor
    · rintro ⟨token, htoken, -, hcovers⟩
      exact ⟨token, htoken, hcovers⟩
    · rintro ⟨token, htoken, hcovers⟩
      obtain ⟨entry, hentry⟩ := Option.isSome_iff_exists.mp hcovers.1
      refine ⟨token, htoken, ⟨entry, hentry, ?_⟩, hcovers⟩
      exact hin ⟨entry.1, token.index⟩ (List.mem_filterMap.mpr
        ⟨token, htoken, Option.map_eq_some_iff.mpr ⟨entry, hentry, rfl⟩⟩)

end Init

section CommandLines

variable (library : Library) (settings : Settings) (argv : List String)

/-- The command line is worked off as it should be. -/
def Processes : Prop :=
  ∃ x, init library settings argv = .ok x ∧ Processed (params library) argv x.toProgress

variable {library settings argv}

theorem paramLoop_of_init {x : Initialized} (h : init library settings argv = .ok x) :
    ∃ y, paramLoop (params library) argv (start settings argv) = .ok y ∧
      x.calls = y.calls ∧ x.processed = y.processed := by
  rw [init] at h
  cases hloop : paramLoop (params library) argv (start settings argv) with
  | error y =>
      rw [hloop] at h
      cases h
  | ok y =>
      rw [hloop] at h
      obtain rfl := Except.ok.inj h
      exact ⟨y, rfl, rfl, rfl⟩

theorem start_length : (start settings argv).processed.length = argv.length :=
  List.length_replicate

theorem complete_of_init {x : Initialized} (h : init library settings argv = .ok x) :
    ∀ token ∈ tokens (params library) argv, token.IsComplete := by
  obtain ⟨y, hy, -, -⟩ := paramLoop_of_init h
  intro token htoken
  obtain ⟨-, hoption, hargs⟩ := tokens_spec token htoken
  cases hentry : token.option with
  | none =>
      rw [Token.IsComplete, hargs, hentry]
      rfl
  | some entry =>
      obtain ⟨q, param⟩ := entry
      have hparam := (lookup_eq_some (hoption.symm.trans hentry)).2
      exact (paramTurns_passes start_length hy).complete token htoken _ hentry
        (List.getElem?_eq_some_iff.mp hparam).1

theorem processed_of_init {x : Initialized} (h : init library settings argv = .ok x) :
    Processed (params library) argv x.toProgress := by
  obtain ⟨y, hy, hcalls, hprocessed⟩ := paramLoop_of_init h
  have hpasses := paramTurns_passes start_length hy
  have hdone : Processed (params library) argv y :=
    hpasses.processed (params_keeps_listeners library) (params_keeps_values library) rfl rfl
  obtain ⟨hpresent, hsorted, hfirst, hlength, hmarked⟩ := hdone
  rw [← hcalls] at hpresent hsorted hfirst
  rw [← hprocessed] at hlength hmarked
  exact ⟨hpresent, hsorted, hfirst, hlength, hmarked⟩

theorem init_isOk (settings : Settings)
    (hcomplete : ∀ token ∈ tokens (params library) argv, token.IsComplete) :
    ∃ x, init library settings argv = .ok x := by
  have hlength : (start settings argv).processed.length = argv.length := start_length
  obtain ⟨y, hy⟩ := paramTurns_isOk (params_takes library) hlength hcomplete (params library).length
  change paramLoop (params library) argv (start settings argv) = .ok y at hy
  rw [init, hy]
  exact ⟨_, rfl⟩

/-- `init` accesses nothing outside of its bounds before it calls a handler without all its
arguments. -/
theorem overruns_of_init {x : Progress} (h : init library settings argv = .error x) :
    Overruns (params library) argv x := by
  rw [init] at h
  cases hloop : paramLoop (params library) argv (start settings argv) with
  | error y =>
      rw [hloop] at h
      obtain rfl := Except.error.inj h
      exact paramTurns_error (params_takes library) start_length hloop
  | ok y =>
      rw [hloop] at h
      cases h

end CommandLines

/-- The command line is worked off as it should be exactly when every option of it has its
arguments. -/
theorem processes_iff_complete (library : Library) (settings : Settings) (argv : List String) :
    Processes library settings argv ↔
      ∀ token ∈ tokens (params library) argv, token.IsComplete := by
  constructor
  · rintro ⟨x, hx, -⟩
    exact complete_of_init hx
  · intro hcomplete
    obtain ⟨x, hx⟩ := init_isOk settings hcomplete
    exact ⟨x, hx, processed_of_init hx⟩

/-- A library that reads decimal numbers and takes every word for an address. -/
def plainLibrary : Library :=
  { atoi := fun word => word.toInt?.getD 0
    atoll := fun word => word.toInt?.getD 0
    atof := fun word => (word.toInt?.getD 0 : Int)
    fromString := fun word => some word.toUTF8.toList }

/-- A server before its options are set. -/
def plainSettings : Settings :=
  { server := .blank .small 100 10
    test := false
    testTcpRemoteAddress := []
    testUdpRemoteAddress := []
    tcpBacklog := 1024
    tcpReceiveAddressSize := 1024
    udpReceiveAddressSize := 1024
    tcpListeners := []
    testListeners := []
    logging := true }

/-- The handler of an option that ends the command line is called without its argument. -/
theorem not_processes_lastOption :
    ¬Processes plainLibrary plainSettings ["icetunnel", "--tcp-backlog"] := by
  rintro ⟨x, hx, -⟩
  have hincomplete : ¬∀ token ∈ tokens (params plainLibrary) ["icetunnel", "--tcp-backlog"],
      token.IsComplete := by
    decide +kernel
  exact hincomplete (complete_of_init hx)

end IceTunnel.CommandLine
