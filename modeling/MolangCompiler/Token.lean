import MolangCompiler.Number.Text
import MolangCompiler.Operator

/-!
# Tokens

A source is read as a sequence of tokens: numbers, names, the word `return`, operators and
punctuation.  Names are case-insensitive and kept in lower case.
-/

namespace MolangCompiler

/-- What a token says, without its place. -/
inductive Lexeme where
  | number (value : Float)
  | name (text : String)
  | ret
  | operator (op : Operator)
  | not
  | openParen | closeParen | openBracket | closeBracket
  | comma | semicolon | assign | question | colon

namespace Lexeme

/-- The text that messages show for a token: a number by its value, all else as it is spelled. -/
def text : Lexeme → String
  | number value => numberText value
  | name s => s
  | ret => "return"
  | operator op => op.symbol
  | not => "!"
  | openParen => "(" | closeParen => ")" | openBracket => "[" | closeBracket => "]"
  | comma => "," | semicolon => ";" | assign => "=" | question => "?" | colon => ":"

/-- How many characters of the source a message about a token points at. -/
def extent : Lexeme → Nat
  | number _ => 1
  | l => l.text.length

/-- The kind of a token. -/
def label : Lexeme → String
  | number _ => "NUMBER"
  | name _ => "NAME"
  | ret => "RETURN"
  | operator op => match op with
    | .binary .add => "PLUS" | .binary .sub => "MINUS" | .binary .mul => "TIMES"
    | .binary .div => "DIVIDE" | .binary .lt => "LT" | .binary .le => "LE" | .binary .gt => "GT"
    | .binary .ge => "GE" | .binary .eq => "EQ" | .binary .ne => "NEQ"
    | .logical .and => "AND" | .logical .or => "OR"
  | not => "NOT"
  | openParen => "LPAREN" | closeParen => "RPAREN"
  | openBracket => "LBRACKET" | closeBracket => "RBRACKET"
  | comma => "COMMA" | semicolon => "SEMI" | assign => "ASSIGN"
  | question => "QUESTION" | colon => "COLON"

end Lexeme

/-- A token and where it starts: its position counts characters, its line counts from one. -/
structure Token where
  lexeme : Lexeme
  start : Nat
  line : Nat

end MolangCompiler
