import ProtoGpu.Common.Json

/-!
# Strings of the frontend

What the PTX parser uses of `std::string` and of the helpers at the head of `parser.cpp`. A position
is an offset into the text; `std::string::npos` is `none`, and a thrown exception is its `what()`.
-/

namespace ProtoGpu.Text

open Json (isSpace isDigit)

/-- `s.find(needle)`. -/
def find : Text → Text → Option Nat
  | [], needle => if needle.isEmpty then some 0 else none
  | c :: cs, needle =>
      if needle.isPrefixOf (c :: cs) then some 0 else (find cs needle).map (· + 1)

/-- `s.find(needle, pos)`. -/
def findFrom (s needle : Text) (pos : Nat) : Option Nat := (find (s.drop pos) needle).map (· + pos)

/-- `s.substr(pos, n)`. -/
def substr (s : Text) (pos n : Nat) : Text := (s.drop pos).take n

def contains (s needle : Text) : Bool := (find s needle).isSome

def trim (s : Text) : Text := (s.dropWhile isSpace).rdropWhile isSpace

def startsWith (s p : Text) : Bool := p.isPrefixOf s

/-- The blank-separated words of the text, the first of them begun with `cur`. -/
def splitWsFrom : Text → Text → List Text
  | cur, [] => if cur.isEmpty then [] else [cur]
  | cur, ch :: s =>
      if isSpace ch then
        if cur.isEmpty then splitWsFrom [] s else cur :: splitWsFrom [] s
      else splitWsFrom (cur ++ [ch]) s

def splitWs (s : Text) : List Text := splitWsFrom [] s

def splitFrom (sep : Char) : Text → Text → List Text
  | cur, [] => [cur]
  | cur, ch :: s =>
      if ch == sep then cur :: splitFrom sep [] s else splitFrom sep (cur ++ [ch]) s

def split (s : Text) (sep : Char) : List Text := splitFrom sep [] s

/-- The lines `std::getline` reads, the first of them begun with `cur`. -/
def getlinesFrom : Text → Text → List Text
  | cur, [] => if cur.isEmpty then [] else [cur]
  | cur, ch :: s => if ch == '\n' then cur :: getlinesFrom [] s else getlinesFrom (cur ++ [ch]) s

def getlines (s : Text) : List Text := getlinesFrom [] s

/-- The text before the first `//`. -/
def cutComment (s : Text) : Text :=
  match find s "//".toList with
  | some pos => s.take pos
  | none => s

/-- `while (s ends in one of the characters) s.pop_back()`. -/
def popBack (s chars : Text) : Text := s.rdropWhile fun ch => chars.elem ch

/-- Every occurrence of `src`, from left to right, replaced by `dst`; the first argument counts the
characters of an occurrence still to pass over. -/
def replaceFrom (src dst : Text) : Nat → Text → Text
  | _, [] => []
  | skip + 1, _ :: s => replaceFrom src dst skip s
  | 0, ch :: s =>
      if src.isPrefixOf (ch :: s) then dst ++ replaceFrom src dst (src.length - 1) s
      else ch :: replaceFrom src dst 0 s

def replace (s src dst : Text) : Text := replaceFrom src dst 0 s

/-! ### Numbers -/

/-- The sign and the digits `strtoll` and `strtoul` read in base ten. -/
def scanNumber (s : Text) : Option (Bool × Nat) :=
  let s := s.dropWhile isSpace
  let neg := s.head? == some '-'
  let s := if neg || s.head? == some '+' then s.tail else s
  let digits := s.takeWhile isDigit
  if digits.isEmpty then none else some (neg, digitsValue digits)

/-- `std::stoll`. -/
def stoll (s : Text) : Except String Int :=
  match scanNumber s with
  | none => .error "stoll"
  | some (neg, n) =>
      let v : Int := if neg then -n else n
      if -(2 ^ 63) ≤ v ∧ v < 2 ^ 63 then .ok v else .error "stoll"

/-- `std::stoul`, where `unsigned long` has 64 bits. A sign is read, and negates in that width. -/
def stoul (s : Text) : Except String Nat :=
  match scanNumber s with
  | none => .error "stoul"
  | some (neg, n) =>
      if n < 2 ^ 64 then .ok (if neg then (2 ^ 64 - n) % 2 ^ 64 else n) else .error "stoul"

/-- `std::to_string` of an unsigned number. -/
def ofNat (n : Nat) : Text := Nat.toDigits 10 n

end ProtoGpu.Text
