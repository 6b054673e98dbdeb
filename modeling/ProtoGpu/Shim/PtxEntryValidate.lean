import ProtoGpu.Frontend.Parser

/-!
# Entry lookup of the shim

`ptx_contains_entry_mvp` (`ptx_entry_validate.cpp`) scans a PTX text for `.entry` and the identifier
behind it, and `cudaLaunchKernel` takes the first text of a module that it accepts.
-/

namespace ProtoGpu

/-- `std::isalnum(c) || c == '_' || c == '$' || c == '.'`. -/
def isIdentChar (c : Char) : Bool := c.isAlphanum || c == '_' || c == '$' || c == '.'

def entryKw : Text := ".entry".toList

def skipWs (s : Text) (i : Nat) : Nat := i + ((s.drop i).takeWhile Json.isSpace).length

def parseEntryNameAt (s : Text) (entryKwPos : Nat) : Option Text :=
  if s.length < entryKwPos + entryKw.length then none
  else if s.substr entryKwPos entryKw.length != entryKw then none
  else if 0 < entryKwPos && (s[entryKwPos - 1]?).any isIdentChar then none
  else
    let i := skipWs s (entryKwPos + entryKw.length)
    let name := (s.drop i).takeWhile isIdentChar
    if name.isEmpty then none else some name

/-- The loop of `ptx_contains_entry_mvp`. A pass moves past an occurrence of `.entry`, so a text of
`n` characters has no more than `n` of them. -/
def containsEntryFrom (s entry : Text) : Nat → Nat → Bool
  | 0, _ => false
  | passes + 1, pos =>
      match s.findFrom entryKw pos with
      | none => false
      | some pos =>
          if parseEntryNameAt s pos == some entry then true
          else containsEntryFrom s entry passes (pos + entryKw.length)

def ptxContainsEntryMvp (ptxText entry : Text) : Bool :=
  if entry.isEmpty then false else containsEntryFrom ptxText entry (ptxText.length + 1) 0

/-- The loop of `ptx_list_entry_names_mvp`. -/
def listEntryNamesFrom (s : Text) (maxEntries : Nat) : Nat → Nat → List Text → List Text
  | 0, _, out => out
  | passes + 1, pos, out =>
      if out.length < maxEntries then
        match s.findFrom entryKw pos with
        | none => out
        | some pos =>
            listEntryNamesFrom s maxEntries passes (pos + entryKw.length)
              (out ++ (parseEntryNameAt s pos).toList)
      else out

def ptxListEntryNamesMvp (ptxText : Text) (maxEntries : Nat) : List Text :=
  listEntryNamesFrom ptxText maxEntries (ptxText.length + 1) 0 []

/-- The choice of `cudaLaunchKernel` among the texts of a module. -/
def choosePtx (ptxTexts : List Text) (entry : Text) : Option Text :=
  ptxTexts.find? fun ptx => ptxContainsEntryMvp ptx entry

/-- What `cudaLaunchKernel` does with the text it has chosen, up to the binding of the kernel. -/
def bindChosen (order : AliasOrder) (ptx entry : Text) : Except String KernelTokens := do
  let m ← parsePtxTextTokens order ptx "<fatbin>"
  bindKernelByName m entry

end ProtoGpu
