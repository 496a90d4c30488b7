import NestClient.TypeScript.Grammar.Fault
import NestClient.TypeScript.Grammar.Statements

/-! The grammar as a whole, and its use on the source of a file. -/

namespace NestClient.TypeScript

/-- What reads a goal, given the rules for the goals inside it. -/
def Rules.reading (r : Rules) : (g : Goal) → Parse g.Result
  | .type e => r.typeRule e
  | .expression pending semicolon => r.expressionRule pending semicolon
  | .pattern => r.patternRule
  | .statement => r.statementRule

/-- Reads a goal that goals contain to a limited depth. -/
def readGoal (bound : Nat) : Nat → (g : Goal) → Parse g.Result
  | 0, _, c => Parse.stuck c
  | depth + 1, g, c => Rules.reading ⟨bound, readGoal bound depth⟩ g c

/-- Reads statements up to the end of the file, or gives the line of the first fault. -/
def statementsFrom (read : Parse Statement) : Nat → Cursor → Except Nat (List Statement)
  | 0, c => .error c.next.line
  | bound + 1, c =>
    if c.next.kind = .endOfFile then .ok []
    else
      match read c with
      | .error stuck => .error (c.faultLine read stuck)
      | .ok (s, c) => (s :: ·) <$> statementsFrom read bound c

/-- The statements of a source, or the line of its first fault. -/
def parse (source : Text) : Except Nat (List Statement) :=
  -- every goal inside another comes after a token or is one of a few without
  let bound := 4 * source.length + 16
  statementsFrom (readGoal bound bound .statement) bound (Cursor.start source)

end NestClient.TypeScript
