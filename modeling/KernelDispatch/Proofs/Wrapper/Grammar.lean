import KernelDispatch.Proofs.Wrapper.Token

/-! The statements in the body of a wrapper: how they are read and what running them returns. -/
namespace KernelDispatch

/-- The number that a word is the decimal text of. -/
def numeral? (w : String) : Option Nat :=
  let n := Nat.ofDigitChars 10 w.toList 0
  if n.repr = w then some n else none

theorem numeral?_repr (n : Nat) : numeral? n.repr = some n := by
  have hn : Nat.ofDigitChars 10 n.repr.toList 0 = n := by
    rw [Nat.toList_repr, Nat.ofDigitChars_ten_toDigits]
  rw [numeral?, hn, if_pos rfl]

/-- The comparison of a variable with a constant. -/
structure Test where
  name : String
  relation : Relation
  limit : Nat
  deriving DecidableEq, Repr

namespace Test

def tokens (t : Test) : List Token :=
  [.mark .openParen, .word t.name, .relation t.relation, .word t.limit.repr, .mark .closeParen]

/-- The tests of a conjunction, `(1)` if there are none. -/
def conjunction : List Test → List Token
  | [] => [.mark .openParen, .word "1", .mark .closeParen]
  | t :: ts => t.tokens ++ ts.flatMap fun u => .both :: u.tokens

/-- A conjunction behind `if`: several tests have parentheses around them. -/
def guard (ts : List Test) : List Token :=
  if ts.length > 1 then .mark .openParen :: conjunction ts ++ [.mark .closeParen]
  else conjunction ts

def read : List Token → Option (Test × List Token)
  | .mark .openParen :: .word name :: .relation r :: .word n :: .mark .closeParen :: rest =>
    (numeral? n).map fun limit => (⟨name, r, limit⟩, rest)
  | _ => none

/-- Reads one test or more. -/
def readConjunction : List Token → Option (List Test × List Token)
  | .mark .openParen :: .word name :: .relation r :: .word n :: .mark .closeParen :: .both ::
      rest =>
    (numeral? n).bind fun limit =>
      (readConjunction rest).map fun (ts, rest) => (⟨name, r, limit⟩ :: ts, rest)
  | tokens => (read tokens).map fun (t, rest) => ([t], rest)

/-- Reads `(1)`, a single test or a conjunction in parentheses. -/
def readGuard : List Token → Option (List Test × List Token)
  | .mark .openParen :: .word "1" :: .mark .closeParen :: rest => some ([], rest)
  | .mark .openParen :: .mark .openParen :: rest =>
    (readConjunction (.mark .openParen :: rest)).bind fun (ts, rest) =>
      match rest with
      | .mark .closeParen :: rest => some (ts, rest)
      | _ => none
  | tokens => (read tokens).map fun (t, rest) => ([t], rest)

theorem read_tokens (t : Test) (rest : List Token) : read (t.tokens ++ rest) = some (t, rest) := by
  change (numeral? t.limit.repr).map _ = _
  rw [numeral?_repr]
  rfl

theorem readConjunction_tokens (t : Test) (ts : List Test) {rest : List Token}
    (h : ∀ more, rest ≠ .both :: more) :
    readConjunction (conjunction (t :: ts) ++ rest) = some (t :: ts, rest) := by
  induction ts generalizing t with
  | nil =>
    rw [conjunction, List.flatMap_nil, List.append_nil, readConjunction, read_tokens]
    · rfl
    · intro _ _ _ more heq
      exact h more (congrArg (List.drop 5) heq)
  | cons u us ih =>
    change (numeral? t.limit.repr).bind (fun limit =>
      (readConjunction (conjunction (u :: us) ++ rest)).map fun (ts, rest) =>
        (Test.mk t.name t.relation limit :: ts, rest)) = _
    rw [numeral?_repr, Option.bind_some, ih]
    rfl

theorem readGuard_tokens (ts : List Test) (rest : List Token) :
    readGuard (guard ts ++ rest) = some (ts, rest) := by
  match ts with
  | [] => rfl
  | [t] =>
    have hguard : guard [t] = t.tokens := List.append_nil t.tokens
    rw [hguard, readGuard, read_tokens]
    · rfl
    · simp [tokens]
    · simp [tokens]
  | t :: u :: us =>
    have hread : readConjunction (conjunction (t :: u :: us) ++ .mark .closeParen :: rest) =
        some (t :: u :: us, .mark .closeParen :: rest) :=
      readConjunction_tokens t (u :: us) nofun
    change (readConjunction (conjunction (t :: u :: us) ++ [.mark .closeParen] ++ rest)).bind _ = _
    rw [List.append_assoc, List.singleton_append, hread]
    rfl

end Test

/-- What stands behind `return`: a call, whose arguments can be blank, or a quoted text. -/
inductive Answer where
  | call (name first : String) (more : List String)
  | literal (text : String)
  deriving DecidableEq, Repr

namespace Answer

def tokens : Answer → List Token
  | .call name first more =>
    .word name :: .mark .openParen :: wordTokens first ++
      more.flatMap (fun a => .mark .comma :: wordTokens a) ++ [.mark .closeParen, .mark .semicolon]
  | .literal text =>
    [.mark .openParen, .word "char", .mark .star, .mark .closeParen, .literal text,
      .mark .semicolon]

/-- Reads the arguments of a call after the first of them. -/
def readMore : List Token → Option (List String × List Token)
  | .mark .comma :: .word a :: rest => (readMore rest).map fun (more, rest) => (a :: more, rest)
  | .mark .comma :: rest => (readMore rest).map fun (more, rest) => ("" :: more, rest)
  | .mark .closeParen :: .mark .semicolon :: rest => some ([], rest)
  | _ => none

def read : List Token → Option (Answer × List Token)
  | .word name :: .mark .openParen :: .word first :: rest =>
    (readMore rest).map fun (more, rest) => (.call name first more, rest)
  | .word name :: .mark .openParen :: rest =>
    (readMore rest).map fun (more, rest) => (.call name "" more, rest)
  | .mark .openParen :: .word "char" :: .mark .star :: .mark .closeParen :: .literal text ::
      .mark .semicolon :: rest => some (.literal text, rest)
  | _ => none

private def ending (more : List String) : List Token :=
  more.flatMap (fun a => .mark .comma :: wordTokens a) ++ [.mark .closeParen, .mark .semicolon]

private theorem ending_append_ne_word (more : List String) (rest : List Token) (w : String)
    (ts : List Token) : ending more ++ rest ≠ .word w :: ts := by
  cases more <;> nofun

private theorem readMore_ending (more : List String) (rest : List Token) :
    readMore (ending more ++ rest) = some (more, rest) := by
  induction more with
  | nil => rfl
  | cons a more ih =>
    by_cases ha : a = ""
    · have hhead : ending (a :: more) = .mark .comma :: ending more := by
        simp [ending, wordTokens, ha]
      rw [hhead, List.cons_append, readMore, ih, ha]
      · rfl
      · exact fun w ts h => ending_append_ne_word more rest w ts h
    · have hhead : ending (a :: more) = .mark .comma :: .word a :: ending more := by
        simp [ending, wordTokens, ha]
      rw [hhead, List.cons_append, List.cons_append, readMore, ih]
      rfl

theorem read_tokens (a : Answer) (rest : List Token) : read (a.tokens ++ rest) = some (a, rest) := by
  cases a with
  | literal text => rfl
  | call name first more =>
    by_cases hfirst : first = ""
    · have hhead : tokens (.call name first more) = .word name :: .mark .openParen :: ending more := by
        simp [tokens, ending, wordTokens, hfirst]
      rw [hhead, List.cons_append, List.cons_append, read, readMore_ending, hfirst]
      · rfl
      · exact fun w ts h => ending_append_ne_word more rest w ts h
    · have hhead : tokens (.call name first more) =
          .word name :: .mark .openParen :: .word first :: ending more := by
        simp [tokens, ending, wordTokens, hfirst]
      rw [hhead, List.cons_append, List.cons_append, List.cons_append, read, readMore_ending]
      rfl

end Answer

mutual
/-- Statements, up to the end of their block. -/
inductive Statements where
  | done
  | answer (a : Answer) (rest : Statements)
  | branch (guard : List Test) (body : Statements) (other : ElsePart) (rest : Statements)

/-- What is run instead of the block of a branch. -/
inductive ElsePart where
  | nothing
  | block (body : Statements)
  | branch (guard : List Test) (body : Statements) (other : ElsePart)
end

mutual
def Statements.tokens : Statements → List Token
  | .done => []
  | .answer a rest => .word "return" :: a.tokens ++ rest.tokens
  | .branch guard body other rest =>
    .word "if" :: Test.guard guard ++ .mark .openBrace :: body.tokens ++ .mark .closeBrace ::
      other.tokens ++ rest.tokens

def ElsePart.tokens : ElsePart → List Token
  | .nothing => []
  | .block body => .word "else" :: .mark .openBrace :: body.tokens ++ [.mark .closeBrace]
  | .branch guard body other =>
    .word "else" :: .word "if" :: Test.guard guard ++ .mark .openBrace :: body.tokens ++
      .mark .closeBrace :: other.tokens
end

def readBlock (read : List Token → Option (Statements × List Token)) :
    List Token → Option (Statements × List Token)
  | .mark .openBrace :: rest =>
    (read rest).bind fun (body, rest) =>
      match rest with
      | .mark .closeBrace :: rest => some (body, rest)
      | _ => none
  | _ => none

mutual
/-- Reads statements. The first argument bounds their number and their depth. -/
def Statements.read : Nat → List Token → Option (Statements × List Token)
  | 0, _ => none
  | fuel + 1, .word "return" :: rest =>
    (Answer.read rest).bind fun (a, rest) =>
      (Statements.read fuel rest).map fun (code, rest) => (.answer a code, rest)
  | fuel + 1, .word "if" :: rest =>
    (Test.readGuard rest).bind fun (guard, rest) =>
      (readBlock (Statements.read fuel) rest).bind fun (body, rest) =>
        (ElsePart.read fuel rest).bind fun (other, rest) =>
          (Statements.read fuel rest).map fun (code, rest) => (.branch guard body other code, rest)
  | _ + 1, tokens => some (.done, tokens)

def ElsePart.read : Nat → List Token → Option (ElsePart × List Token)
  | 0, _ => none
  | fuel + 1, .word "else" :: .word "if" :: rest =>
    (Test.readGuard rest).bind fun (guard, rest) =>
      (readBlock (Statements.read fuel) rest).bind fun (body, rest) =>
        (ElsePart.read fuel rest).map fun (other, rest) => (.branch guard body other, rest)
  | fuel + 1, .word "else" :: rest =>
    (readBlock (Statements.read fuel) rest).map fun (body, rest) => (.block body, rest)
  | _ + 1, tokens => some (.nothing, tokens)
end

/-- The statements that a text consists of. -/
def statements? (s : String) : Option Statements :=
  (tokens? s).bind fun ts =>
    (Statements.read (ts.length + 1) ts).bind fun (code, rest) =>
      if rest = [] then some code else none

private theorem readBlock_tokens {read : List Token → Option (Statements × List Token)}
    {body : Statements} {rest : List Token}
    (h : read (body.tokens ++ .mark .closeBrace :: rest) = some (body, .mark .closeBrace :: rest)) :
    readBlock read (.mark .openBrace :: (body.tokens ++ .mark .closeBrace :: rest)) =
      some (body, rest) := by
  rw [readBlock, h]
  rfl

private theorem Statements.tokens_append_ne_else (code : Statements) {rest : List Token}
    (hrest : ∀ w more, rest ≠ .word w :: more) (more : List Token) :
    code.tokens ++ rest ≠ .word "else" :: more := by
  cases code with
  | done => exact hrest "else" more
  | answer a code => simp [Statements.tokens]
  | branch guard body other code => simp [Statements.tokens]

mutual
/-- Statements are read back from their tokens where no further statement follows. -/
theorem Statements.read_tokens (code : Statements) (fuel : Nat) (rest : List Token)
    (hfuel : code.tokens.length < fuel) (hrest : ∀ w more, rest ≠ .word w :: more) :
    Statements.read fuel (code.tokens ++ rest) = some (code, rest) := by
  -- every part has fewer tokens than the whole, so one step less is enough for it
  obtain ⟨fuel, rfl⟩ := Nat.exists_eq_succ_of_ne_zero (Nat.ne_zero_of_lt hfuel)
  cases code with
  | done =>
    rw [Statements.tokens, List.nil_append, Statements.read]
    · exact fun more => hrest "return" more
    · exact fun more => hrest "if" more
  | answer a code =>
    simp only [Statements.tokens, List.cons_append, List.length_cons, List.length_append] at hfuel
    have hcode := code.read_tokens fuel rest (by omega) hrest
    simp only [Statements.tokens, List.cons_append, List.append_assoc, Statements.read,
      Answer.read_tokens, Option.bind_some, hcode, Option.map_some]
  | branch guard body other code =>
    simp only [Statements.tokens, List.cons_append, List.length_cons, List.length_append] at hfuel
    have hbody := readBlock_tokens (body.read_tokens fuel
      (.mark .closeBrace :: (other.tokens ++ (code.tokens ++ rest))) (by omega) nofun)
    have hother := other.read_tokens fuel (code.tokens ++ rest) (by omega)
      (code.tokens_append_ne_else hrest)
    have hcode := code.read_tokens fuel rest (by omega) hrest
    simp only [Statements.tokens, List.cons_append, List.append_assoc, Statements.read,
      Test.readGuard_tokens, Option.bind_some, hbody, hother, hcode, Option.map_some]

theorem ElsePart.read_tokens (other : ElsePart) (fuel : Nat) (rest : List Token)
    (hfuel : other.tokens.length < fuel) (hrest : ∀ more, rest ≠ .word "else" :: more) :
    ElsePart.read fuel (other.tokens ++ rest) = some (other, rest) := by
  obtain ⟨fuel, rfl⟩ := Nat.exists_eq_succ_of_ne_zero (Nat.ne_zero_of_lt hfuel)
  cases other with
  | nothing =>
    rw [ElsePart.tokens, List.nil_append, ElsePart.read]
    · exact fun more => hrest (.word "if" :: more)
    · exact hrest
  | block body =>
    simp only [ElsePart.tokens, List.cons_append, List.length_cons, List.length_append] at hfuel
    have hbody := readBlock_tokens (body.read_tokens fuel (.mark .closeBrace :: rest)
      (by omega) nofun)
    simp only [ElsePart.tokens, List.cons_append, List.append_assoc, List.nil_append]
    rw [ElsePart.read, hbody]
    · rfl
    · nofun
  | branch guard body other =>
    simp only [ElsePart.tokens, List.cons_append, List.length_cons, List.length_append] at hfuel
    have hbody := readBlock_tokens (body.read_tokens fuel
      (.mark .closeBrace :: (other.tokens ++ rest)) (by omega) nofun)
    have hother := other.read_tokens fuel rest (by omega) hrest
    simp only [ElsePart.tokens, List.cons_append, List.append_assoc, ElsePart.read,
      Test.readGuard_tokens, Option.bind_some, hbody, hother, Option.map_some]
end

theorem statements?_eq {s : String} {code : Statements} (h : Spells s code.tokens) :
    statements? s = some code := by
  have hread := code.read_tokens (code.tokens.length + 1) [] (Nat.lt_succ_self _) nofun
  rw [List.append_nil] at hread
  rw [statements?, h.tokens?_eq, Option.bind_some, hread]
  rfl

/-- The values of the variables that statements can read. -/
abbrev Store := String → Option Nat

def Relation.compare : Relation → Nat → Nat → Bool
  | .eq, a, b => a == b
  | .le, a, b => a ≤ b

namespace Test

def eval (store : Store) (t : Test) : Option Bool :=
  (store t.name).map fun n => t.relation.compare n t.limit

/-- Whether all tests of a conjunction hold. Those behind one that does not are not evaluated. -/
def evalAll (store : Store) : List Test → Option Bool
  | [] => some true
  | t :: ts => (t.eval store).bind fun b => if b then evalAll store ts else some false

end Test

mutual
/-- The answers that are met when statements are run. A run goes on behind an answer, so that a
second one would show, and it fails at a test of a variable that does not exist. -/
def Statements.returns (store : Store) : Statements → Option (List Answer)
  | .done => some []
  | .answer a rest => (rest.returns store).map fun as => a :: as
  | .branch guard body other rest =>
    (Test.evalAll store guard).bind fun b =>
      (if b then body.returns store else other.returns store).bind fun as =>
        (rest.returns store).map fun bs => as ++ bs

/-- The answers that are met instead of those of a block. -/
def ElsePart.returns (store : Store) : ElsePart → Option (List Answer)
  | .nothing => some []
  | .block body => body.returns store
  | .branch guard body other =>
    (Test.evalAll store guard).bind fun b =>
      if b then body.returns store else other.returns store
end

example : (statements? "if (x <= 3) \x7b return f(a, b); \x7d return g();").bind
    (Statements.returns fun name => if name = "x" then some 5 else none) =
      some [.call "g" "" []] := by
  decide

end KernelDispatch
