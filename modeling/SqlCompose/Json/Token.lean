import SqlCompose.Text.Digits

/-!
# JSON tokens

A JSON text is cut into tokens by a machine that reads one character at a time.  What a
string spells with `\u` escapes is kept as 16-bit units, because whether a unit makes a
character depends on its neighbour; `spell` joins them.
-/

namespace SqlCompose.Json

/-- One element of a string: a character, or a 16-bit unit that was written in
hexadecimal. -/
inductive Piece where
  | char (c : Char)
  | unit (code : Nat)
  deriving DecidableEq

/-- The text that the pieces of a string spell, if they do: a unit in the surrogate range
must be the first or second half of a pair. -/
def spell : List Piece → Option Text
  | [] => some []
  | .char c :: rest => (spell rest).map (c :: ·)
  | .unit u :: .unit v :: rest =>
    if 0xD800 ≤ u ∧ u < 0xDC00 then
      if 0xDC00 ≤ v ∧ v < 0xE000 then
        (spell rest).map (Char.ofNat (0x10000 + (u - 0xD800) * 0x400 + (v - 0xDC00)) :: ·)
      else none
    else if 0xDC00 ≤ u ∧ u < 0xE000 then none
    else (spell (.unit v :: rest)).map (Char.ofNat u :: ·)
  | .unit u :: rest =>
    if 0xD800 ≤ u ∧ u < 0xE000 then none else (spell rest).map (Char.ofNat u :: ·)

/-- A token of a JSON text.  Words and numbers are not checked yet. -/
inductive Token where
  | openArray
  | closeArray
  | openObject
  | closeObject
  | comma
  | colon
  | word (letters : Text)
  | number (literal : Text)
  | text (pieces : List Piece)
  deriving DecidableEq

/-- Where the machine stands.  What it has read of an unfinished token is kept latest
first. -/
inductive Scan where
  | between
  | inWord (letters : Text)
  | inNumber (literal : Text)
  | inText (pieces : List Piece)
  | escaped (pieces : List Piece)
  /-- Inside a `\u` escape, with the digits still missing and the value so far. -/
  | inUnit (pieces : List Piece) (missing : Nat) (code : Nat)

namespace Scan

/-- The four characters that may stand between tokens. -/
def isSpace (c : Char) : Bool := c == ' ' || c == '\n' || c == '\t' || c == '\r'

/-- The characters that make up numbers. -/
def isNumeric (c : Char) : Bool :=
  c.isDigit || c == '-' || c == '+' || c == '.' || c == 'e' || c == 'E'

/-- Reads a character where no token is unfinished. -/
def start (c : Char) : Option (List Token × Scan) :=
  if isSpace c then some ([], between)
  else if c = '"' then some ([], inText [])
  else if c = '-' ∨ c.isDigit then some ([], inNumber [c])
  else if c.isLower then some ([], inWord [c])
  else match c with
    | '[' => some ([.openArray], between)
    | ']' => some ([.closeArray], between)
    | '{' => some ([.openObject], between)
    | '}' => some ([.closeObject], between)
    | ',' => some ([.comma], between)
    | ':' => some ([.colon], between)
    | _ => none

/-- Reads a character behind a finished token. -/
def startAfter (token : Token) (c : Char) : Option (List Token × Scan) :=
  (start c).map fun (tokens, scan) => (token :: tokens, scan)

/-- The character that a one-letter escape stands for. -/
def escapedChar? : Char → Option Char
  | '"' => some '"'
  | '\\' => some '\\'
  | '/' => some '/'
  | 'b' => some '\x08'
  | 'f' => some '\x0c'
  | 'n' => some '\n'
  | 'r' => some '\r'
  | 't' => some '\t'
  | _ => none

/-- Reads one character; gives the tokens that it completes. -/
def step (scan : Scan) (c : Char) : Option (List Token × Scan) :=
  match scan with
  | between => start c
  | inWord letters =>
    if c.isLower then some ([], inWord (c :: letters))
    else startAfter (.word letters.reverse) c
  | inNumber literal =>
    if isNumeric c then some ([], inNumber (c :: literal))
    else startAfter (.number literal.reverse) c
  | inText pieces =>
    if c = '"' then some ([.text pieces.reverse], between)
    else if c = '\\' then some ([], escaped pieces)
    else if c.toNat < 0x20 then none
    else some ([], inText (.char c :: pieces))
  | escaped pieces =>
    if c = 'u' then some ([], inUnit pieces 4 0)
    else (escapedChar? c).map fun c => ([], inText (.char c :: pieces))
  | inUnit pieces missing code =>
    (Text.hexDigit? c).map fun digit =>
      let code := 16 * code + digit
      if missing ≤ 1 then ([], inText (.unit code :: pieces))
      else ([], inUnit pieces (missing - 1) code)

/-- The tokens that the end of the text completes. -/
def finish : Scan → Option (List Token)
  | between => some []
  | inWord letters => some [.word letters.reverse]
  | inNumber literal => some [.number literal.reverse]
  | inText _ | escaped _ | inUnit _ _ _ => none

/-- The tokens of a text, read on from a state. -/
def tokens (scan : Scan) : Text → Option (List Token)
  | [] => scan.finish
  | c :: rest => do
    let (completed, next) ← scan.step c
    let later ← next.tokens rest
    return completed ++ later

end Scan

/-- The tokens of a JSON text, if it can be cut into tokens. -/
def tokenize (t : Text) : Option (List Token) := Scan.between.tokens t

end SqlCompose.Json
