import LogSearch.Json.Reader
import LogSearch.Text.Search
import LogSearch.Toml.Document

/-!
# Reading configuration files

Each step returns what it read and the rest of the text.

* `Toml.read?`: a whole file as a table.
* `Toml.scalar?`: numbers, truth values, dates and times.
* `Toml.value?`: a value; lists and tables nest at most `maxDepth` deep.
-/

namespace LogSearch.Toml

/-- How deep lists and tables may nest. -/
def maxDepth : Nat := 80

/-! ## Blanks and line ends -/

/-- White space inside a line. -/
def isSpace (c : Char) : Bool := c = ' ' || c = '\t'

/-- The text after its leading white space. -/
def skipSpace (cs : List Char) : List Char := cs.dropWhile isSpace

/-- Characters of comments and strings. -/
def isText (c : Char) : Bool := c = '\t' || (c.toNat ≥ 0x20 && c.toNat ≠ 0x7F)

/-- The text after a line end. -/
def newline? : List Char → Option (List Char)
  | '\n' :: cs => some cs
  | '\r' :: '\n' :: cs => some cs
  | _ => none

/-- The text after a comment, if one follows. -/
def skipComment : List Char → List Char
  | '#' :: cs => cs.dropWhile isText
  | cs => cs

/-- The text after white space, comments and line ends. -/
def skipLines : Nat → List Char → List Char
  | 0, cs => cs
  | fuel + 1, cs =>
    let rest := skipComment (skipSpace cs)
    match newline? rest with
    | some after => skipLines fuel after
    | none => rest

/-- The text after all white space, comments and line ends. -/
def skipBlank (cs : List Char) : List Char := skipLines (cs.length + 1) cs

/-- The text after the end of a line, where only a comment may precede it. -/
def endLine? (cs : List Char) : Option (List Char) :=
  match skipComment (skipSpace cs) with
  | [] => some []
  | rest => newline? rest

/-! ## Strings -/

/-- The character that a number of hexadecimal digits stands for. -/
def codePoint? (width : Nat) (cs : List Char) : Option (Char × List Char) := do
  let digits := cs.take width
  if digits.length ≠ width then none
  else
    let values ← digits.mapM Json.hexValue?
    let n := values.foldl (fun n d => 16 * n + d) 0
    if n < 0xD800 ∨ (0xDFFF < n ∧ n < 0x110000) then some (Char.ofNat n, cs.drop width) else none

/-- The character after a backslash. -/
def escape? : List Char → Option (Char × List Char)
  | 'b' :: cs => some ('\x08', cs)
  | 't' :: cs => some ('\t', cs)
  | 'n' :: cs => some ('\n', cs)
  | 'f' :: cs => some ('\x0c', cs)
  | 'r' :: cs => some ('\r', cs)
  | '"' :: cs => some ('"', cs)
  | '\\' :: cs => some ('\\', cs)
  | 'u' :: cs => codePoint? 4 cs
  | 'U' :: cs => codePoint? 8 cs
  | _ => none

/-- A string up to its closing quote; `raw` strings have no escapes. -/
def line? (quote : Char) (raw : Bool) : Nat → List Char → Option (List Char × List Char)
  | 0, _ => none
  | _, [] => none
  | fuel + 1, c :: cs => do
    if c = quote then return ([], cs)
    else if c = '\\' ∧ !raw then
      let (e, rest) ← escape? cs
      let (more, rest) ← line? quote raw fuel rest
      return (e :: more, rest)
    else if isText c then
      let (more, rest) ← line? quote raw fuel cs
      return (c :: more, rest)
    else none

/-- The text after a backslash at the end of a line and the blanks and line ends that follow. -/
def joinLines? (cs : List Char) : Option (List Char) :=
  (newline? (skipSpace cs)).map fun rest =>
    rest.dropWhile fun c => isSpace c || c = '\n' || c = '\r'

/-- A string of several lines up to its three closing quotes; two more quotes may stand before. -/
def lines? (quote : Char) (raw : Bool) : Nat → List Char → Option (List Char × List Char)
  | 0, _ => none
  | _, [] => none
  | fuel + 1, c :: cs => do
    if c = quote then
      let quotes := (c :: cs).takeWhile (· = quote)
      let n := quotes.length
      let rest := cs.drop (n - 1)
      if n < 3 then
        let (more, rest) ← lines? quote raw fuel rest
        return (quotes ++ more, rest)
      else if n ≤ 5 then return (quotes.drop 3, rest)
      else none
    else if c = '\\' ∧ !raw then
      match joinLines? cs with
      | some rest => lines? quote raw fuel rest
      | none =>
        let (e, rest) ← escape? cs
        let (more, rest) ← lines? quote raw fuel rest
        return (e :: more, rest)
    else
      match newline? (c :: cs) with
      | some rest =>
        let (more, rest) ← lines? quote raw fuel rest
        return ('\n' :: more, rest)
      | none =>
        if isText c then
          let (more, rest) ← lines? quote raw fuel cs
          return (c :: more, rest)
        else none

/-- A string on one line, after its opening quote. -/
def lineText? (quote : Char) (cs : List Char) : Option (String × List Char) :=
  (line? quote (quote = '\'') (cs.length + 1) cs).map fun (text, rest) => (String.ofList text, rest)

/-- A string, with its opening quotes still there; a line end right after three of them is left out. -/
def string? (quote : Char) (cs : List Char) : Option (String × List Char) :=
  if [quote, quote, quote].isPrefixOf cs then
    let body := cs.drop 3
    let body := (newline? body).getD body
    (lines? quote (quote = '\'') (body.length + 1) body).map fun (text, rest) =>
      (String.ofList text, rest)
  else lineText? quote (cs.drop 1)

/-! ## Numbers and dates -/

/-- Digits, without the underscores that may stand between two of them. -/
def grouped? (isDigit : Char → Bool) (cs : List Char) : Option (List Char) :=
  let parts := Text.splitOn '_' cs
  if parts.all fun p => !p.isEmpty && p.all isDigit then some parts.flatten else none

/-- Digits of a number to a base. -/
def based? (base : Nat) (cs : List Char) : Option Toml := do
  let isDigit (c : Char) : Bool := (Json.hexValue? c).any fun d => d < base
  let digits ← grouped? isDigit cs
  let n := digits.foldl (fun n c => base * n + (Json.hexValue? c).getD 0) 0
  if n ≤ Number.int64Max then some (.integer n) else none

/-- Decimal digits without a leading zero. -/
def decimal? (cs : List Char) : Option (List Char) := do
  let digits ← grouped? Number.isDigit cs
  match digits with
  | '0' :: _ :: _ => none
  | digits => some digits

/-- An integer. -/
def integer? : List Char → Option Toml
  | '0' :: 'x' :: cs => based? 16 cs
  | '0' :: 'o' :: cs => based? 8 cs
  | '0' :: 'b' :: cs => based? 2 cs
  | cs => do
    let (negative, digits) := Number.splitSign cs
    let n : Int := Number.ofDigits (← decimal? digits)
    let n := if negative then -n else n
    if Number.int64Min ≤ n ∧ n ≤ Number.int64Max then some (.integer n) else none

/-- Whether what follows the whole part of a number is a fraction, an exponent, or both. -/
def isFractional (cs : List Char) : Bool :=
  let isExponent : List Char → Bool
    | c :: cs => (c = 'e' || c = 'E') && (grouped? Number.isDigit (Number.splitSign cs).2).isSome
    | [] => false
  match cs with
  | '.' :: cs =>
    let digits := cs.takeWhile fun c => Number.isDigit c || c = '_'
    let rest := cs.drop digits.length
    (grouped? Number.isDigit digits).isSome && (rest.isEmpty || isExponent rest)
  | cs => isExponent cs

/-- A number with a fraction or an exponent; one too large is not accepted. -/
def real? (cs : List Char) : Option Toml := do
  let (negative, body) := Number.splitSign cs
  if body = "inf".toList then return .real (if negative then -1.0 / 0.0 else 1.0 / 0.0)
  else if body = "nan".toList then return .real (0.0 / 0.0)
  else
    let whole := body.takeWhile fun c => Number.isDigit c || c = '_'
    let rest := body.drop whole.length
    let _ ← decimal? whole
    if !isFractional rest then none
    else
      let x ← Number.readFloat? (cs.filter (· ≠ '_'))
      if x == 1.0 / 0.0 then none else return .real x

/-- Characters of values that are no strings, lists or tables. -/
def isScalarChar (c : Char) : Bool :=
  c.isAlphanum || c = '+' || c = '-' || c = '_' || c = '.' || c = ':'

/-- A number, a truth value, a date or a time. -/
def ofScalar? (cs : List Char) : Option Toml :=
  if cs = "true".toList then some (.boolean true)
  else if cs = "false".toList then some (.boolean false)
  else ((moment? cs).map .moment) <|> integer? cs <|> real? cs

/-- The same at the start of a text; a blank may stand between a date and its time. -/
def scalar? (cs : List Char) : Option (Toml × List Char) :=
  let word := cs.takeWhile isScalarChar
  let rest := cs.drop word.length
  let joined : Option (Toml × List Char) :=
    match date? word, rest with
    | some (_, []), ' ' :: more =>
      let time := more.takeWhile isScalarChar
      (moment? (word ++ 'T' :: time)).map fun m => (.moment m, more.drop time.length)
    | _, _ => none
  joined <|> (ofScalar? word).map (·, rest)

/-! ## Keys -/

/-- Characters of keys without quotes. -/
def isKeyChar (c : Char) : Bool := c.isAlphanum || c = '_' || c = '-'

/-- A key without dots. -/
def simpleKey? (cs : List Char) : Option (String × List Char) :=
  match cs with
  | '"' :: rest => lineText? '"' rest
  | '\'' :: rest => lineText? '\'' rest
  | _ =>
    let word := cs.takeWhile isKeyChar
    if word.isEmpty then none else some (String.ofList word, cs.drop word.length)

/-- The keys after a first one, and the blanks after them. -/
def moreKeys? : Nat → List Char → Option (List String × List Char)
  | 0, _ => none
  | fuel + 1, cs =>
    match skipSpace cs with
    | '.' :: rest => do
      let (key, rest) ← simpleKey? (skipSpace rest)
      let (keys, rest) ← moreKeys? fuel rest
      return (key :: keys, rest)
    | rest => some ([], rest)

/-- A key with dots, as a path and a last key. -/
def key? (cs : List Char) : Option ((List String × String) × List Char) := do
  let (first, rest) ← simpleKey? (skipSpace cs)
  let (keys, rest) ← moreKeys? (rest.length + 1) rest
  let all := first :: keys
  return ((all.dropLast, all.getLastD first), rest)

/-! ## Values -/

mutual
/-- A value that nests at most as deep as given. -/
def value? : Nat → List Char → Option (Toml × List Char)
  | 0, _ => none
  | depth + 1, cs =>
    match cs with
    | '"' :: _ => (string? '"' cs).map fun (s, rest) => (.string s, rest)
    | '\'' :: _ => (string? '\'' cs).map fun (s, rest) => (.string s, rest)
    | '[' :: rest =>
      (items? depth (rest.length + 1) rest).map fun (items, rest) => (.array items, rest)
    | '\x7b' :: rest =>
      match skipSpace rest with
      | '\x7d' :: rest => some (.table [], rest)
      | rest =>
        (members? depth (rest.length + 1) [] rest).map fun (es, rest) =>
          (.table (entriesToToml es), rest)
    | _ => scalar? cs
termination_by depth => (depth, 0)

/-- The items of a list up to its closing bracket; a comma may stand after the last one. -/
def items? : Nat → Nat → List Char → Option (List Toml × List Char)
  | _, 0, _ => none
  | depth, fuel + 1, cs =>
    match skipBlank cs with
    | ']' :: rest => some ([], rest)
    | rest => do
      let (v, rest) ← value? depth rest
      match skipBlank rest with
      | ',' :: rest =>
        let (more, rest) ← items? depth fuel rest
        return (v :: more, rest)
      | ']' :: rest => return ([v], rest)
      | _ => none
termination_by depth fuel => (depth, fuel)

/-- The members of a table on one line up to its closing brace. -/
def members? : Nat → Nat → Entries → List Char → Option (Entries × List Char)
  | _, 0, _, _ => none
  | depth, fuel + 1, es, cs => do
    let ((path, key), rest) ← key? cs
    let rest ← Instant.oneOf? ['='] rest
    let (v, rest) ← value? depth (skipSpace rest)
    let es ← es.put? key v path
    match skipSpace rest with
    | ',' :: rest => members? depth fuel es rest
    | '\x7d' :: rest => return (es, rest)
    | _ => none
termination_by depth fuel => (depth, fuel)
end

/-! ## Files -/

/-- What the lines so far have built: all entries, and the path of the table that is open. -/
structure Draft where
  entries : Entries
  current : List String

namespace Draft

/-- The effect of a header between brackets. -/
def header? (d : Draft) (cs : List Char) : Option (Draft × List Char) := do
  match cs with
  | '[' :: cs =>
    let ((path, key), rest) ← key? cs
    let rest ← Json.expect? [']', ']'] rest
    return (⟨← d.entries.openElement? path key, path ++ [key]⟩, rest)
  | cs =>
    let ((path, key), rest) ← key? cs
    let rest ← Json.expect? [']'] rest
    return (⟨← d.entries.openTable? path key, path ++ [key]⟩, rest)

/-- The effect of a key with its value. -/
def entry? (d : Draft) (cs : List Char) : Option (Draft × List Char) := do
  let ((path, key), rest) ← key? cs
  let rest ← Instant.oneOf? ['='] rest
  let (v, rest) ← value? maxDepth (skipSpace rest)
  return ({ d with entries := ← d.entries.change? (Entries.put? key v path) d.current }, rest)

/-- The effect of all lines. -/
def lines? : Nat → Draft → List Char → Option Draft
  | 0, _, _ => none
  | fuel + 1, d, cs => do
    match skipBlank cs with
    | [] => return d
    | '[' :: rest =>
      let (d, rest) ← d.header? rest
      lines? fuel d (← endLine? rest)
    | rest =>
      let (d, rest) ← d.entry? rest
      lines? fuel d (← endLine? rest)

end Draft

/-- A file as a table. -/
def read? (text : String) : Option Toml :=
  let cs := text.toList
  let cs := if cs.head? = some '\uFEFF' then cs.drop 1 else cs
  (Draft.lines? (cs.length + 1) ⟨[], []⟩ cs).map fun d => .table (entriesToToml d.entries)

end LogSearch.Toml
