import KpiReport.Formula.Expr
import KpiReport.Formula.Token

/-!
# Parsing formulas

The grammar has a level for each strength of binding, from the conditional down to names and
literals. `Expr.parseAt` reads an expression of a level at the start of a list of tokens;
`Expr.parse` reads a whole formula. Nothing is read twice, so a bound on the nesting of calls that
grows with the number of tokens is never met.
-/

namespace KpiReport.Expr

/-- The levels of the grammar, the loosest binding first. -/
inductive Level where
  | conditional
  | disjunction
  | conjunction
  | negation
  | comparison
  | sum
  | product
  | sign
  | power
  | access
  | primary
  deriving DecidableEq, Repr

/-- The rest of the tokens after a word. -/
def dropWord? (word : String) : List Token → Option (List Token)
  | .name w :: ts => if w = word then some ts else none
  | _ => none

/-- The rest of the tokens after a punctuation mark. -/
def dropPunct? (mark : Punct) : List Token → Option (List Token)
  | .punct p :: ts => if p = mark then some ts else none
  | _ => none

/-- The comparison that a punctuation mark stands for. -/
def compareOp? : Punct → Option CompareOp
  | .equal => some .eq
  | .notEqual => some .ne
  | .less => some .lt
  | .lessEqual => some .le
  | .greater => some .gt
  | .greaterEqual => some .ge
  | _ => none

/-- The comparison at the start of the tokens, and what follows it. -/
def takeCompareOp? : List Token → Option (CompareOp × List Token)
  | .punct p :: ts => (compareOp? p).map fun op => (op, ts)
  | _ => none

/-- An operator that groups to the left. -/
inductive Chained where
  | or
  | and
  | arithmetic (op : BinaryOp)
  deriving DecidableEq, Repr

/-- The expression that an operator makes of its operands. -/
def Chained.join : Chained → Expr → Expr → Expr
  | .or, left, right => Expr.or left right
  | .and, left, right => Expr.and left right
  | .arithmetic op, left, right => Expr.binary op left right

/-- The operator that joins operands at a level. -/
def chained? : Level → Token → Option Chained
  | .disjunction, .name w => if w = "or" then some .or else none
  | .conjunction, .name w => if w = "and" then some .and else none
  | .sum, .punct .plus => some (.arithmetic .add)
  | .sum, .punct .minus => some (.arithmetic .sub)
  | .product, .punct .times => some (.arithmetic .mul)
  | .product, .punct .divide => some (.arithmetic .div)
  | .product, .punct .modulo => some (.arithmetic .mod)
  | _, _ => none

/-- The operator of a level at the start of the tokens, and what follows it. -/
def takeChained? (level : Level) : List Token → Option (Chained × List Token)
  | t :: ts => (chained? level t).map fun op => (op, ts)
  | [] => none

/-- The level of the operands of a level whose operators group to the left. -/
def Level.operand : Level → Level
  | .disjunction => .conjunction
  | .conjunction => .negation
  | .sum => .product
  | .product => .sign
  | level => level

/-- What a name stands for on its own: a constant, a variable, or nothing for the other
keywords. -/
def ofWord (word : String) : Except SyntaxFault Expr :=
  if word = "None" then .ok .noData
  else if word = "True" then .ok (.bool true)
  else if word = "False" then .ok (.bool false)
  else if keywords.contains word then .error (.unexpectedKeyword word)
  else .ok (.name word)

/-- An expression and the tokens that follow it. -/
abbrev Parsed := Except SyntaxFault (Expr × List Token)

/-- Expressions and the tokens that follow them. -/
abbrev ParsedList := Except SyntaxFault (List Expr × List Token)

mutual

/-- Reads an expression of a level; `depth` bounds the nesting of calls. -/
def parseAt (depth : Nat) (level : Level) (ts : List Token) : Parsed :=
  match depth with
  | 0 => .error .unexpectedEnd
  | depth + 1 =>
    match level with
    | .conditional => do
      let (body, ts) ← parseAt depth .disjunction ts
      match dropWord? "if" ts with
      | none => return (body, ts)
      | some ts =>
        let (condition, ts) ← parseAt depth .disjunction ts
        match dropWord? "else" ts with
        | none => .error (.expected "else" ts.head?)
        | some ts =>
          let (otherwise, ts) ← parseAt depth .conditional ts
          return (.conditional condition body otherwise, ts)
    | .disjunction => do
      let (left, ts) ← parseAt depth .conjunction ts
      parseChain depth .disjunction left ts
    | .conjunction => do
      let (left, ts) ← parseAt depth .negation ts
      parseChain depth .conjunction left ts
    | .negation =>
      match dropWord? "not" ts with
      | some ts => do
        let (operand, ts) ← parseAt depth .negation ts
        return (.not operand, ts)
      | none => parseAt depth .comparison ts
    | .comparison => do
      let (left, ts) ← parseAt depth .sum ts
      match takeCompareOp? ts with
      | some (op, ts) =>
        let (right, ts) ← parseAt depth .sum ts
        return (.compare op left right, ts)
      | none => return (left, ts)
    | .sum => do
      let (left, ts) ← parseAt depth .product ts
      parseChain depth .sum left ts
    | .product => do
      let (left, ts) ← parseAt depth .sign ts
      parseChain depth .product left ts
    | .sign =>
      match dropPunct? .minus ts with
      | some ts => do
        let (operand, ts) ← parseAt depth .sign ts
        return (.negate operand, ts)
      | none =>
        match dropPunct? .plus ts with
        | some ts => parseAt depth .sign ts
        | none => parseAt depth .power ts
    | .power => do
      let (base, ts) ← parseAt depth .access ts
      match dropPunct? .power ts with
      | some ts =>
        let (exponent, ts) ← parseAt depth .sign ts
        return (.binary .pow base exponent, ts)
      | none => return (base, ts)
    | .access => do
      let (base, ts) ← parseAt depth .primary ts
      parseAccess depth base ts
    | .primary =>
      match ts with
      | [] => .error .unexpectedEnd
      | .number x :: ts => .ok (.number x, ts)
      | .text s :: ts => .ok (.text s, ts)
      | .name word :: ts => (ofWord word).map fun e => (e, ts)
      | .punct .openParen :: ts => do
        let (inner, ts) ← parseAt depth .conditional ts
        match dropPunct? .closeParen ts with
        | some ts => return (inner, ts)
        | none => .error (.expected ")" ts.head?)
      | .punct .openBracket :: ts => do
        let (items, ts) ← parseSequence depth .closeBracket ts
        return (.list items, ts)
      | .punct p :: _ => .error (.unexpectedToken (.punct p))

/-- Reads the operators of a level and their right operands after a left operand. -/
def parseChain (depth : Nat) (level : Level) (left : Expr) (ts : List Token) : Parsed :=
  match depth with
  | 0 => .error .unexpectedEnd
  | depth + 1 =>
    match takeChained? level ts with
    | none => .ok (left, ts)
    | some (op, ts) => do
      let (right, ts) ← parseAt depth level.operand ts
      parseChain depth level (op.join left right) ts

/-- Reads the attributes and arguments after an expression; only a bare name takes arguments. -/
def parseAccess (depth : Nat) (base : Expr) (ts : List Token) : Parsed :=
  match depth with
  | 0 => .error .unexpectedEnd
  | depth + 1 =>
    match ts with
    | .punct .dot :: ts =>
      match ts with
      | .name attr :: ts => parseAccess depth (.member base attr) ts
      | _ => .error .missingAttributeName
    | .punct .openParen :: ts =>
      match base with
      | .name function => do
        let (args, ts) ← parseSequence depth .closeParen ts
        parseAccess depth (.call function args) ts
      | _ => .error .notCallable
    | ts => .ok (base, ts)

/-- Reads expressions between commas up to a closing mark; a comma may stand before it. -/
def parseSequence (depth : Nat) (close : Punct) (ts : List Token) : ParsedList :=
  match depth with
  | 0 => .error .unexpectedEnd
  | depth + 1 =>
    match dropPunct? close ts with
    | some ts => .ok ([], ts)
    | none => parseItems depth close ts

/-- Reads at least one expression up to a closing mark. -/
def parseItems (depth : Nat) (close : Punct) (ts : List Token) : ParsedList :=
  match depth with
  | 0 => .error .unexpectedEnd
  | depth + 1 => do
    let (item, ts) ← parseAt depth .conditional ts
    match dropPunct? .comma ts with
    | some ts =>
      let (items, ts) ← parseSequence depth close ts
      return (item :: items, ts)
    | none =>
      match dropPunct? close ts with
      | some ts => return ([item], ts)
      | none => .error (.expected close.symbol ts.head?)

end

/-- A bound on the nesting of calls in reading some tokens. -/
def depthFor (ts : List Token) : Nat :=
  16 * (ts.length + 1)

/-- Reads a list of tokens as one expression. -/
def ofTokens (ts : List Token) : Except SyntaxFault Expr :=
  if ts.isEmpty then .error .emptyFormula
  else do
    let (e, rest) ← parseAt (depthFor ts) .conditional ts
    match rest with
    | [] => return e
    | t :: _ => .error (.unexpectedToken t)

/-- Reads a formula. -/
def parse (formula : String) : Except SyntaxFault Expr := do
  ofTokens (← Token.ofText formula)

end KpiReport.Expr
