import TemplateCompiler.Text.Search

namespace TemplateCompiler.Command

/-- A value in a document. -/
inductive DocumentValue where
  | text (content : String)
  | integer (number : Int)
  | boolean (truth : Bool)
deriving DecidableEq, Repr

/-- What a document defines: the tables it names and its values by the keys that lead to them. -/
structure Document where
  tables : List (List String)
  values : List (List String × DocumentValue)
deriving DecidableEq, Repr

/-- What a document has at a key. -/
inductive Found where
  | absent
  | table
  | value (value : DocumentValue)
deriving DecidableEq, Repr

namespace Document

/-- A document that defines nothing. -/
def empty : Document := ⟨[], []⟩

/-- What a document has at a key. -/
def find (document : Document) (key : List String) : Found :=
  match document.values.lookup key with
  | some value => .value value
  | none =>
    if document.tables.any key.isPrefixOf || document.values.any (key.isPrefixOf ·.1) then .table
    else .absent

/-- Whether a value stands where a key needs a table. -/
def blocks (document : Document) (key : List String) : Bool :=
  document.values.any (·.1.isPrefixOf key)

/-- Defines a table, which must be new. -/
def addTable (document : Document) (key : List String) : Option Document :=
  if document.tables.contains key || document.blocks key then none
  else some { document with tables := document.tables ++ [key] }

/-- Defines a value, whose key must be new. -/
def addValue (document : Document) (key : List String) (value : DocumentValue) : Option Document :=
  if document.find key ≠ .absent || document.blocks key then none
  else some { document with values := document.values ++ [(key, value)] }

end Document

namespace DocumentLine

/-- Whether a character is a space inside a line. -/
def isSpace (c : Char) : Bool :=
  c == ' ' || c == '\t'

/-- Whether a character may stand in a comment or a string. -/
def isPrintable (c : Char) : Bool :=
  c == '\t' || (0x20 ≤ c.toNat && c.toNat != 0x7F)

/-- Whether a character may stand in a key without quotes. -/
def isBareKey (c : Char) : Bool :=
  c.isAlphanum || c == '_' || c == '-'

/-- Whether nothing but a comment is left of a line. -/
def isDone (cs : List Char) : Bool :=
  match cs.dropWhile isSpace with
  | [] => true
  | c :: comment => c == '#' && comment.all isPrintable

/-- The value of a digit in bases up to sixteen. -/
def digit? (c : Char) : Option Nat :=
  if c.isDigit then some (c.toNat - '0'.toNat)
  else if 'a' ≤ c ∧ c ≤ 'f' then some (c.toNat - 'a'.toNat + 10)
  else if 'A' ≤ c ∧ c ≤ 'F' then some (c.toNat - 'A'.toNat + 10)
  else none

/-- The number that digits of a base stand for. -/
def number? (base : Nat) (digits : List Char) : Option Nat :=
  if digits = [] then none
  else digits.foldl (fun value c =>
    match value, digit? c with
    | some value, some digit => if digit < base then some (base * value + digit) else none
    | _, _ => none) (some 0)

/-- The character with a code given by `count` hexadecimal digits, and what is behind them. -/
def codePoint? (count : Nat) (cs : List Char) : Option (Char × List Char) :=
  if cs.length < count then none
  else
    match number? 16 (cs.take count) with
    | some code => if code.isValidChar then some (Char.ofNat code, cs.drop count) else none
    | none => none

/-- The character that an escape of one letter stands for. -/
def escapedChar? : Char → Option Char
  | 'b' => some '\x08'
  | 't' => some '\t'
  | 'n' => some '\n'
  | 'f' => some '\x0C'
  | 'r' => some '\r'
  | 'e' => some '\x1B'
  | '"' => some '"'
  | '\\' => some '\\'
  | _ => none

/-- The character that an escape stands for, from behind its backslash, and what is behind it. -/
def escaped? : List Char → Option (Char × List Char)
  | [] => none
  | 'x' :: cs => codePoint? 2 cs
  | 'u' :: cs => codePoint? 4 cs
  | 'U' :: cs => codePoint? 8 cs
  | c :: cs => (escapedChar? c).map fun plain => (plain, cs)

/-- Reads a string with escapes from behind its quote, with fuel for its length. -/
def basicString? : Nat → List Char → Option (List Char × List Char)
  | 0, _ => none
  | _ + 1, [] => none
  | fuel + 1, c :: cs =>
    if c = '"' then some ([], cs)
    else if c = '\\' then
      match escaped? cs with
      | some (plain, rest) =>
        (basicString? fuel rest).map fun (content, behind) => (plain :: content, behind)
      | none => none
    else if isPrintable c then
      (basicString? fuel cs).map fun (content, behind) => (c :: content, behind)
    else none

/-- Reads a string as it stands from behind its quote. -/
def literalString? (cs : List Char) : Option (List Char × List Char) :=
  match Text.splitOnce ['\''] cs with
  | some (content, behind) => if content.all isPrintable then some (content, behind) else none
  | none => none

/-- Reads one part of a key. -/
def keyPart? (cs : List Char) : Option (String × List Char) :=
  match cs with
  | '"' :: rest =>
    (basicString? (rest.length + 1) rest).map fun (part, behind) => (String.ofList part, behind)
  | '\'' :: rest => (literalString? rest).map fun (part, behind) => (String.ofList part, behind)
  | _ =>
    let part := cs.takeWhile isBareKey
    if part = [] then none else some (String.ofList part, cs.drop part.length)

/-- Reads a key, whose parts have dots between them, with fuel for its length. -/
def key? : Nat → List Char → Option (List String × List Char)
  | 0, _ => none
  | fuel + 1, cs =>
    match keyPart? (cs.dropWhile isSpace) with
    | none => none
    | some (part, behind) =>
      match behind.dropWhile isSpace with
      | '.' :: rest => (key? fuel rest).map fun (parts, behind) => (part :: parts, behind)
      | rest => some ([part], rest)

/-- Digits without the underscores between them. -/
def plainDigits? (digits : List Char) : Option (List Char) :=
  let groups := digits.splitOn '_'
  if groups.any (· = []) then none else some groups.flatten

/-- The number of an unsigned decimal, which has no leading zero. -/
def decimal? (digits : List Char) : Option Nat :=
  match plainDigits? digits with
  | some plain =>
    if plain.length > 1 ∧ plain.head? = some '0' then none else number? 10 plain
  | none => none

/-- The integer that a word stands for. -/
def integer? (word : List Char) : Option Int :=
  match word with
  | '+' :: digits => (decimal? digits).map Int.ofNat
  | '-' :: digits => (decimal? digits).map fun number => -Int.ofNat number
  | '0' :: 'x' :: digits => (plainDigits? digits).bind fun plain => (number? 16 plain).map Int.ofNat
  | '0' :: 'o' :: digits => (plainDigits? digits).bind fun plain => (number? 8 plain).map Int.ofNat
  | '0' :: 'b' :: digits => (plainDigits? digits).bind fun plain => (number? 2 plain).map Int.ofNat
  | digits => (decimal? digits).map Int.ofNat

/-- The value that a word without quotes stands for. -/
def wordValue? (word : List Char) : Option DocumentValue :=
  if word = "true".toList then some (.boolean true)
  else if word = "false".toList then some (.boolean false)
  else (integer? word).map .integer

/-- Reads a value and what is behind it. -/
def value? (cs : List Char) : Option (DocumentValue × List Char) :=
  match cs with
  | '"' :: rest =>
    (basicString? (rest.length + 1) rest).map fun (content, behind) =>
      (.text (String.ofList content), behind)
  | '\'' :: rest =>
    (literalString? rest).map fun (content, behind) => (.text (String.ofList content), behind)
  | _ =>
    let word := cs.takeWhile fun c => !isSpace c && c != '#'
    (wordValue? word).map fun value => (value, cs.drop word.length)

/-- Reads the line of a table from behind its bracket. -/
def table? (cs : List Char) : Option (List String) :=
  match key? (cs.length + 1) cs with
  | some (key, ']' :: rest) => if isDone rest then some key else none
  | _ => none

/-- Reads the line of a value. -/
def assignment? (cs : List Char) : Option (List String × DocumentValue) :=
  match key? (cs.length + 1) cs with
  | some (key, '=' :: rest) =>
    match value? (rest.dropWhile isSpace) with
    | some (value, behind) => if isDone behind then some (key, value) else none
    | none => none
  | _ => none

end DocumentLine

namespace Document

/-- Reads lines into a document, inside the table `table`. -/
def readLines (document : Document) (table : List String) : List (List Char) → Option Document
  | [] => some document
  | line :: lines =>
    if DocumentLine.isDone line then document.readLines table lines
    else
      match line.dropWhile DocumentLine.isSpace with
      | '[' :: rest =>
        match DocumentLine.table? rest with
        | some key => (document.addTable key).bind (·.readLines key lines)
        | none => none
      | rest =>
        match DocumentLine.assignment? rest with
        | some (key, value) =>
          (document.addValue (table ++ key) value).bind (·.readLines table lines)
        | none => none

/-- The lines of a text; a carriage return before a newline belongs to it. -/
def splitLines (cs : List Char) : List (List Char) :=
  (Text.replaceAll ['\r', '\n'] ['\n'] cs).splitOn '\n'

/-- Reads a document. -/
def parse? (text : String) : Option Document :=
  empty.readLines [] (splitLines text.toList)

end Document

end TemplateCompiler.Command
