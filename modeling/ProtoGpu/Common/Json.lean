import ProtoGpu.Common.Double

/-!
# JSON

`json::parse` and `json::stringify` (`json.cpp`): a recursive descent over a cursor into the text,
and its printer. An object is a `std::map`, which keeps its members in key order and the first of
two equal keys.
-/

namespace ProtoGpu.Json

inductive Value where
  | null
  | bool (v : Bool)
  | number (v : Double)
  | string (v : Text)
  | array (v : List Value)
  | object (v : List (Text × Value))

abbrev Object := List (Text × Value)

/-- `std::map::emplace`. -/
def emplace (k : Text) (v : Value) : Object → Object
  | [] => [(k, v)]
  | (k', v') :: o =>
      if k < k' then (k, v) :: (k', v') :: o
      else if k = k' then (k', v') :: o
      else (k', v') :: emplace k v o

def find? (k : Text) : Object → Option Value
  | [] => none
  | (k', v) :: o => if k = k' then some v else find? k o

/-! ### Accessors -/

def Value.asBool : Value → Except String Bool
  | .bool v => .ok v
  | _ => .error "json: not a bool"

def Value.asString : Value → Except String Text
  | .string v => .ok v
  | _ => .error "json: not a string"

def Value.asArray : Value → Except String (List Value)
  | .array v => .ok v
  | _ => .error "json: not an array"

def Value.asObject : Value → Except String Object
  | .object v => .ok v
  | _ => .error "json: not an object"

/-! ### The cursor -/

/-- What is left of the text, and the offset reached. -/
structure Cursor where
  rest : Text
  i : Nat := 0
deriving DecidableEq

def Cursor.peek (c : Cursor) : Char := c.rest.headD '\x00'

def Cursor.eof (c : Cursor) : Bool := c.rest.isEmpty

/-- `c.i++`. -/
def Cursor.next (c : Cursor) : Cursor := { rest := c.rest.tail, i := c.i + 1 }

/-- `ParseError`, and the end of the model's recursion depth. -/
inductive ParseError where
  | error (what : String)
  | depth
deriving DecidableEq

def fail {α : Type} (c : Cursor) (msg : String) : Except ParseError α :=
  .error (.error ("JSON parse error at offset " ++ toString c.i ++ ": " ++ msg))

def isSpace (ch : Char) : Bool :=
  ch == ' ' || ch == '\t' || ch == '\n' || ch == '\x0b' || ch == '\x0c' || ch == '\r'

def isDigit (ch : Char) : Bool := '0' ≤ ch && ch ≤ '9'

def skipWsFrom : Text → Nat → Cursor
  | [], i => { rest := [], i := i }
  | ch :: rest, i => if isSpace ch then skipWsFrom rest (i + 1) else { rest := ch :: rest, i := i }

def skipWs (c : Cursor) : Cursor := skipWsFrom c.rest c.i

def consume (c : Cursor) (ch : Char) : Option Cursor :=
  if c.peek == ch then some c.next else none

def expect (c : Cursor) (ch : Char) : Except ParseError Cursor :=
  match consume c ch with
  | some c => .ok c
  | none => fail c ("expected '" ++ String.singleton ch ++ "'")

/-! ### Strings -/

def unescape : Char → Option Char
  | '"' => some '"'
  | '\\' => some '\\'
  | '/' => some '/'
  | 'b' => some '\x08'
  | 'f' => some '\x0c'
  | 'n' => some '\n'
  | 'r' => some '\r'
  | 't' => some '\t'
  | _ => none

/-- The characters up to the closing quote, behind those in `out`. -/
def parseStringFrom : Text → Nat → Text → Except ParseError (Text × Cursor)
  | [], i, _ => fail { rest := [], i := i } "unterminated string"
  | '"' :: rest, i, out => .ok (out, { rest := rest, i := i + 1 })
  | ['\\'], i, _ => fail { rest := [], i := i + 1 } "unterminated escape"
  | '\\' :: e :: rest, i, out =>
      match unescape e with
      | some ch => parseStringFrom rest (i + 2) (out ++ [ch])
      | none =>
          fail { rest := rest, i := i + 2 }
            (if e == 'u' then "\\u escapes not supported in this parser" else "invalid escape")
  | ch :: rest, i, out => parseStringFrom rest (i + 1) (out ++ [ch])

def parseString (c : Cursor) : Except ParseError (Text × Cursor) := do
  let c ← expect c '"'
  parseStringFrom c.rest c.i []

/-! ### Numbers -/

/-- `while (isdigit(c.peek())) c.i++`, with the digits passed over. -/
def scanDigitsFrom : Text → Nat → Text × Cursor
  | [], i => ([], { rest := [], i := i })
  | ch :: rest, i =>
      if isDigit ch then
        let r := scanDigitsFrom rest (i + 1)
        (ch :: r.1, r.2)
      else ([], { rest := ch :: rest, i := i })

def scanDigits (c : Cursor) : Text × Cursor := scanDigitsFrom c.rest c.i

def parseFraction (c : Cursor) : Except ParseError (Text × Cursor) :=
  match consume c '.' with
  | none => .ok ([], c)
  | some c =>
      if isDigit c.peek then .ok (scanDigits c) else fail c "invalid number fraction"

/-- Whether the exponent is negative, and its digits. -/
def parseExponent (c : Cursor) : Except ParseError ((Bool × Text) × Cursor) :=
  if c.peek == 'e' || c.peek == 'E' then
    let c := c.next
    let expNeg := c.peek == '-'
    let c := if c.peek == '+' || c.peek == '-' then c.next else c
    if isDigit c.peek then
      let r := scanDigits c
      .ok ((expNeg, r.1), r.2)
    else fail c "invalid number exponent"
  else .ok ((false, []), c)

def parseNumber (c : Cursor) : Except ParseError (Double × Cursor) := do
  let neg := c.peek == '-'
  let c := if neg then c.next else c
  if isDigit c.peek then
    let (int, c) := if c.peek == '0' then (['0'], c.next) else scanDigits c
    let (frac, c) ← parseFraction c
    let ((expNeg, exp), c) ← parseExponent c
    .ok (strtod { neg := neg, int := int, frac := frac, expNeg := expNeg, exp := exp }, c)
  else fail c "invalid number"

/-! ### Values -/

def matchLit (c : Cursor) (lit : Text) : Option Cursor :=
  if lit.isPrefixOf c.rest then some { rest := c.rest.drop lit.length, i := c.i + lit.length }
  else none

def parseLiteral (c : Cursor) : Except ParseError (Value × Cursor) :=
  match matchLit c "true".toList with
  | some c => .ok (.bool true, c)
  | none =>
      match matchLit c "false".toList with
      | some c => .ok (.bool false, c)
      | none =>
          match matchLit c "null".toList with
          | some c => .ok (.null, c)
          | none => fail c "unexpected token"

mutual

/-- `fuel` bounds the depth of the calls. -/
def parseValue : Nat → Cursor → Except ParseError (Value × Cursor)
  | 0, _ => .error .depth
  | fuel + 1, c => do
      let c := skipWs c
      let ch := c.peek
      if ch == '"' then
        let (s, c) ← parseString c
        return (.string s, c)
      else if ch == '\x7b' then
        let (o, c) ← parseObject fuel c
        return (.object o, c)
      else if ch == '[' then
        let (a, c) ← parseArray fuel c
        return (.array a, c)
      else if ch == '-' || isDigit ch then
        let (d, c) ← parseNumber c
        return (.number d, c)
      else parseLiteral c

def parseArray : Nat → Cursor → Except ParseError (List Value × Cursor)
  | 0, _ => .error .depth
  | fuel + 1, c => do
      let c ← expect c '['
      let c := skipWs c
      match consume c ']' with
      | some c => return ([], c)
      | none => parseItems fuel c []

/-- The loop of `parse_array`. -/
def parseItems : Nat → Cursor → List Value → Except ParseError (List Value × Cursor)
  | 0, _, _ => .error .depth
  | fuel + 1, c, a => do
      let (v, c) ← parseValue fuel (skipWs c)
      let a := a ++ [v]
      let c := skipWs c
      match consume c ']' with
      | some c => return (a, c)
      | none =>
          let c ← expect c ','
          parseItems fuel c a

def parseObject : Nat → Cursor → Except ParseError (Object × Cursor)
  | 0, _ => .error .depth
  | fuel + 1, c => do
      let c ← expect c '\x7b'
      let c := skipWs c
      match consume c '\x7d' with
      | some c => return ([], c)
      | none => parseMembers fuel c []

/-- The loop of `parse_object`. -/
def parseMembers : Nat → Cursor → Object → Except ParseError (Object × Cursor)
  | 0, _, _ => .error .depth
  | fuel + 1, c, o => do
      let c := skipWs c
      if c.peek == '"' then
        let (k, c) ← parseString c
        let c ← expect (skipWs c) ':'
        let (v, c) ← parseValue fuel (skipWs c)
        let o := emplace k v o
        let c := skipWs c
        match consume c '\x7d' with
        | some c => return (o, c)
        | none =>
            let c ← expect c ','
            parseMembers fuel c o
      else fail c "object key must be string"

end

/-- Every three nested calls pass over a character. -/
def parse (text : Text) : Except ParseError Value := do
  let (v, c) ← parseValue (3 * text.length + 3) { rest := text }
  let c := skipWs c
  if c.eof then return v else fail c "trailing characters"

/-! ### Printing -/

def escape : Char → Text
  | '"' => "\\\"".toList
  | '\\' => "\\\\".toList
  | '\n' => "\\n".toList
  | '\r' => "\\r".toList
  | '\t' => "\\t".toList
  | ch => [ch]

def stringifyString (s : Text) : Text := '"' :: s.flatMap escape ++ ['"']

/-- The printed elements, with commas between them. -/
def commas : List Text → Text
  | [] => []
  | [s] => s
  | s :: more => s ++ ',' :: commas more

mutual

def stringify : Value → Text
  | .null => "null".toList
  | .bool v => (if v then "true" else "false").toList
  | .number v => v.text
  | .string v => stringifyString v
  | .array v => '[' :: commas (stringifyItems v) ++ [']']
  | .object v => '\x7b' :: commas (stringifyMembers v) ++ ['\x7d']

def stringifyItems : List Value → List Text
  | [] => []
  | v :: vs => stringify v :: stringifyItems vs

def stringifyMembers : List (Text × Value) → List Text
  | [] => []
  | (k, v) :: o => (stringifyString k ++ ':' :: stringify v) :: stringifyMembers o

end

end ProtoGpu.Json
