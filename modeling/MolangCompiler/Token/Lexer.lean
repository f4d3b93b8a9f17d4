import MolangCompiler.Text.Digit
import MolangCompiler.Token

/-!
# Reading tokens

`nextLexeme?` reads the token at the head of a text and returns it with the characters it takes
up.  A number has digits of any script, an optional point and an optional `f`; a name is one or
more ASCII words joined by points; of two operators that fit, the longer one is read.  Between
tokens stand blanks: spaces, tabs, carriage returns and line feeds.

`scan` reads a whole source.  It ends either at the end of the source or at the first character
that no token starts with, and it counts lines, starting from a line it is given.
-/

namespace MolangCompiler

/-- Whether a name may start with a character. -/
def isNameStart (c : Char) : Bool := c.isAlpha || c == '_'

/-- Whether a name may go on with a character. -/
def isNamePart (c : Char) : Bool := c.isAlphanum || c == '_'

/-! ## Numbers and names -/

/-- The digits of a number at the head of a text, as its whole part, its fraction and the number
of characters read. -/
def numeral? (cs : List Char) : Option (List Char × List Char × Nat) :=
  let whole := cs.takeWhile isDigit
  match cs.drop whole.length with
  | '.' :: rest =>
    let fraction := rest.takeWhile isDigit
    if whole.isEmpty && fraction.isEmpty then none
    else some (whole, fraction, whole.length + 1 + fraction.length)
  | _ => if whole.isEmpty then none else some (whole, [], whole.length)

/-- The double that a whole part and a fraction spell, rounded to nearest. -/
def numeralValue (whole fraction : List Char) : Float :=
  Float.ofScientific (digitsValue (whole ++ fraction)) true fraction.length

/-- The number at the head of a text and how many characters it takes up. -/
def number? (cs : List Char) : Option (Float × Nat) :=
  (numeral? cs).map fun (whole, fraction, n) =>
    let suffix := match cs.drop n with
      | c :: _ => if c == 'f' || c == 'F' then 1 else 0
      | [] => 0
    (numeralValue whole fraction, n + suffix)

/-- The length of the name at the head of a text: a word, then words joined by points.  The flag
says that a word has begun. -/
def nameLength (inWord : Bool) : List Char → Nat
  | [] => 0
  | c :: rest =>
    if inWord then
      if isNamePart c then 1 + nameLength true rest
      else match c, rest with
        | '.', d :: rest' => if isNameStart d then 2 + nameLength true rest' else 0
        | _, _ => 0
    else if isNameStart c then 1 + nameLength true rest else 0

/-! ## One token -/

/-- The operator or punctuation mark at the head of a text and how many characters it takes up. -/
def mark? : List Char → Option (Lexeme × Nat)
  | '|' :: '|' :: _ => some (.operator (.logical .or), 2)
  | '&' :: '&' :: _ => some (.operator (.logical .and), 2)
  | '=' :: '=' :: _ => some (.operator (.binary .eq), 2)
  | '!' :: '=' :: _ => some (.operator (.binary .ne), 2)
  | '<' :: '=' :: _ => some (.operator (.binary .le), 2)
  | '>' :: '=' :: _ => some (.operator (.binary .ge), 2)
  | '+' :: _ => some (.operator (.binary .add), 1)
  | '-' :: _ => some (.operator (.binary .sub), 1)
  | '*' :: _ => some (.operator (.binary .mul), 1)
  | '/' :: _ => some (.operator (.binary .div), 1)
  | '<' :: _ => some (.operator (.binary .lt), 1)
  | '>' :: _ => some (.operator (.binary .gt), 1)
  | '=' :: _ => some (.assign, 1)
  | '!' :: _ => some (.not, 1)
  | '(' :: _ => some (.openParen, 1)
  | ')' :: _ => some (.closeParen, 1)
  | '[' :: _ => some (.openBracket, 1)
  | ']' :: _ => some (.closeBracket, 1)
  | ',' :: _ => some (.comma, 1)
  | ';' :: _ => some (.semicolon, 1)
  | '?' :: _ => some (.question, 1)
  | ':' :: _ => some (.colon, 1)
  | _ => none

/-- The lexeme that a word or a dotted name stands for. -/
def wordLexeme (text : List Char) : Lexeme :=
  let name := String.ofList (text.map Char.toLower)
  if name == "return" then .ret else .name name

/-- The token at the head of a text and how many characters it takes up. -/
def nextLexeme? (cs : List Char) : Option (Lexeme × Nat) :=
  match number? cs with
  | some (value, n) => some (.number value, n)
  | none =>
    match nameLength false cs with
    | 0 => mark? cs
    | n => some (wordLexeme (cs.take n), n)

/-! ## A whole source -/

/-- Where reading a source stopped: at its end, or at a character that starts no token. -/
inductive ScanEnd where
  | finished
  | illegal (c : Char) (position : Nat)

/-- The tokens read, how the reading stopped and the line it stopped in. -/
structure Scan where
  tokens : List Token
  stop : ScanEnd
  line : Nat

/-- Reads tokens from a text that starts at `position` in `line`; the first `skip` characters
belong to the token read last. -/
def scanFrom (position line : Nat) : (skip : Nat) → List Char → Scan
  | _, [] => ⟨[], .finished, line⟩
  | skip + 1, _ :: rest => scanFrom (position + 1) line skip rest
  | 0, c :: rest =>
    if c == ' ' || c == '\t' || c == '\r' then scanFrom (position + 1) line 0 rest
    else if c == '\n' then scanFrom (position + 1) (line + 1) 0 rest
    else match nextLexeme? (c :: rest) with
      | none => ⟨[], .illegal c position, line⟩
      | some (lexeme, n) =>
        let after := scanFrom (position + 1) line (n - 1) rest
        { after with tokens := ⟨lexeme, position, line⟩ :: after.tokens }

/-- Reads the tokens of a source whose first line has the number `line`. -/
def scan (line : Nat) (source : String) : Scan := scanFrom 0 line 0 source.toList

end MolangCompiler
