import ProtoGpu.Shim.PtxEntryValidate

/-!
# PTX texts of a fatbin

What the shim does with the bytes of a PTX entry (`fatbin_registry.cpp`): `deobfuscate_ptx_text_mvp`
keeps what is printable, drops the `.loc` lines and mends directives and parameter names line by
line; `looks_like_ptx_header` says whether the result is kept.
-/

namespace ProtoGpu

open Json (isSpace)

def looksLikePtxHeader (s : Text) : Bool :=
  Text.contains s ".version".toList && Text.contains s ".target".toList
    && Text.contains s ".entry".toList

/-- The loop of `sanitize_identifier_token`; `lastUs` says that the last character written stands
for some that were not allowed. -/
def sanitizeFrom : Bool → Text → Text
  | _, [] => []
  | lastUs, c :: tok =>
      if isIdentChar c then c :: sanitizeFrom false tok
      else if lastUs then sanitizeFrom true tok
      else '_' :: sanitizeFrom true tok

def sanitizeIdentifierToken (tok : Text) : Text :=
  let out := sanitizeFrom false tok
  if out.isEmpty then ['_'] else out

def cleanByte (b : Byte) : Char :=
  let c := Char.ofNat b.toNat
  if c == '\n' || c == '\r' || c == '\t' then c
  else if 0x20 ≤ b.toNat ∧ b.toNat ≤ 0x7E then
    if c == '"' then ' ' else c
  else ' '

/-- The line with the text between brackets sanitized, from position `lb` on. A pass takes `lb` at
least two characters further, and makes the line longer by no more than one. -/
def sanitizeBracketsFrom : Nat → Nat → Text → Text
  | 0, _, t => t
  | passes + 1, lb, t =>
      match t.findFrom ['['] lb with
      | none => t
      | some lb =>
          match t.findFrom [']'] (lb + 1) with
          | none => t
          | some rb =>
              let inside := sanitizeIdentifierToken (t.substr (lb + 1) (rb - (lb + 1)))
              sanitizeBracketsFrom passes (rb + 1) (t.take (lb + 1) ++ inside ++ t.drop rb)

def sanitizeBrackets (t : Text) : Text := sanitizeBracketsFrom (t.length + 1) 0 t

/-- The identifier behind the first `.u64`, or else the first `.u32`, sanitized. -/
def sanitizeTypedName (t : Text) : Text :=
  match (Text.find t ".u64".toList).or (Text.find t ".u32".toList) with
  | none => t
  | some tp =>
      let behind := t.drop (tp + 4)
      let j := tp + 4 + (behind.takeWhile (!isSpace ·)).length
        + ((behind.dropWhile (!isSpace ·)).takeWhile isSpace).length
      let name := (t.drop j).takeWhile isIdentChar
      if name.isEmpty then t
      else t.take j ++ sanitizeIdentifierToken name ++ t.drop (j + name.length)

/-- A corrupted `.visible` at the start of the line, mended. -/
def fixVisible (t : Text) : Text :=
  let blanks := t.takeWhile isSpace
  let sv := t.dropWhile isSpace
  if Text.startsWith sv "$visible".toList then blanks ++ ".visible".toList ++ sv.drop 8
  else if Text.startsWith sv "visible".toList then blanks ++ '.' :: sv
  else t

def fixTypes (t : Text) : Text :=
  Text.replace (Text.replace t ".u64%".toList ".u64 ".toList) ".u32%".toList ".u32 ".toList

def isLocLine (t : Text) : Bool :=
  let sv := t.dropWhile isSpace
  Text.startsWith sv ".loc".toList || Text.startsWith sv ".loc ".toList
    || Text.startsWith sv ".locI".toList

/-- A line that is not dropped. -/
def cleanLine (t : Text) : Text :=
  let t := fixTypes (fixVisible t)
  if Text.contains t ".param".toList then sanitizeTypedName (sanitizeBrackets t) else t

def cleanText (text : Text) : Text :=
  (text.getlines.filter (!isLocLine ·)).flatMap fun t => cleanLine t ++ ['\n']

def deobfuscatePtxTextMvp (data : List Byte) : Text := cleanText (data.map cleanByte)

end ProtoGpu
